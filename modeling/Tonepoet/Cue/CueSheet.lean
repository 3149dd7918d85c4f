import Tonepoet.Cue.Scanners

/-!
# `parse_cue` (cue_parser.rs:4593)

The loop over the lines, then the overlay of the Tonepoet block, then the performers the tracks inherit.
-/

namespace Cue

open Rust

structure CueTrack where
  number : ℕ := 0
  title : Option Str := none
  performer : Option Str := none
  file : Option Str := none
  index01Frames : Option ℕ := none
  index00Frames : Option ℕ := none
  isrc : Option Str := none
  userMetadata : CueUserMetadata := .empty
  directives : List Str := []

structure CueSheet where
  title : Option Str := none
  performer : Option Str := none
  date : Option Str := none
  genre : Option Str := none
  catalog : Option Str := none
  userMetadata : CueUserMetadata := .empty
  tonepoetMetadataPresent : Bool := false
  tracks : List CueTrack := []

structure ParseState where
  sheet : CueSheet := {}
  currentTrack : Option CueTrack := none
  ignoredTrackBlock : Bool := false
  currentFile : Option Str := none

/-- A FILE line is the file of a track that has no INDEX 01 yet. -/
def CueTrack.rebind (track : CueTrack) (file : Str) : CueTrack :=
  if track.index01Frames.isNone then { track with file := some file } else track

/-- Directives that the model of a sheet does not interpret are kept as they are. -/
def CueTrack.pushDirective (track : CueTrack) (trimmed : Str) : CueTrack :=
  if (metadataPayload trimmed).isSome then track
  else if (stripKeywordCi trimmed flagsKeyword).isSome || (stripKeywordCi trimmed remKeyword).isSome then
    { track with directives := track.directives ++ [trimmed] }
  else track

/-- A line inside an audio track (cue_parser.rs:4667-4740). -/
def CueTrack.readLine (track : CueTrack) (trimmed : Str) : CueTrack :=
  if let some title := parseQuotedField trimmed titleKeyword then { track with title := some title }
  else if let some performer := parseQuotedField trimmed performerKeyword then { track with performer := some performer }
  else if let some frames := parseIndexLine trimmed ['0', '1'] then { track with index01Frames := some frames }
  else if let some frames := parseIndexLine trimmed ['0', '0'] then { track with index00Frames := some frames }
  else
    ((stripKeywordCi trimmed isrcKeyword).map trim).elim (track.pushDirective trimmed) fun val =>
      if val.isEmpty then track.pushDirective trimmed else { track with isrc := some val }

/-- A line before the first track, or after a data track that a FILE line has ended. -/
def CueSheet.readLine (sheet : CueSheet) (trimmed : Str) : CueSheet :=
  if let some title := parseQuotedField trimmed titleKeyword then { sheet with title := some title }
  else if let some performer := parseQuotedField trimmed performerKeyword then { sheet with performer := some performer }
  else if let some val := (parseRemField trimmed dateField).or (parseRemField trimmed yearField) then
    { sheet with date := some val }
  else if let some val := parseRemField trimmed genreField then { sheet with genre := some val }
  else
    ((stripKeywordCi trimmed catalogKeyword).map trim).elim sheet fun val =>
      if val.isEmpty then sheet else { sheet with catalog := some val }

/-- `if let Some(track) = current_track.take() { sheet.tracks.push(track) }`. -/
def ParseState.commit (s : ParseState) : CueSheet :=
  { s.sheet with tracks := s.sheet.tracks ++ s.currentTrack.toList }

/-- The body of the loop of `parse_cue`. -/
def ParseState.step (s : ParseState) (trimmed : Str) : ParseState :=
  match parseFileLine trimmed with
  | some file =>
    { s with
      currentFile := some file
      ignoredTrackBlock := false
      currentTrack := s.currentTrack.map fun track => track.rebind file }
  | none =>
    match parseTrackHeader trimmed with
    | some (num, isAudio) =>
      if !isAudio then { s with sheet := s.commit, currentTrack := none, ignoredTrackBlock := true }
      else
        { s with
          sheet := s.commit
          ignoredTrackBlock := false
          currentTrack := some { number := num, file := s.currentFile } }
    | none =>
      if s.ignoredTrackBlock then s
      else
        match s.currentTrack with
        | some track => { s with currentTrack := some (track.readLine trimmed) }
        | none => { s with sheet := s.sheet.readLine trimmed }

/-- The loop of `parse_cue`, with the last track committed. -/
def parseCueLines (content : Str) : CueSheet :=
  ((lines content).zipIdx.foldl (fun s line => s.step (trimmedLine line)) ({} : ParseState)).commit

/-- `cue_user_metadata_first` (cue_parser.rs:362). -/
def userMetadataFirst (metadata : CueUserMetadata) (key : Str) : Option Str :=
  (metadata.entries.find? fun entry => eqIgnoreAsciiCase entry.1 key).bind fun entry => entry.2.head?

def albumKey : Str := ['A', 'L', 'B', 'U', 'M']
def albumArtistKey : Str := ['A', 'L', 'B', 'U', 'M', 'A', 'R', 'T', 'I', 'S', 'T']
def catalogNumberKey : Str := ['C', 'A', 'T', 'A', 'L', 'O', 'G', 'N', 'U', 'M', 'B', 'E', 'R']
def artistKey : Str := ['A', 'R', 'T', 'I', 'S', 'T']

/-- The overlay of one track (cue_parser.rs:4775). -/
def CueTrack.overlay (track : CueTrack) : CueTrack :=
  { track with
    title := (userMetadataFirst track.userMetadata titleKeyword).or track.title
    performer := (userMetadataFirst track.userMetadata artistKey).or track.performer
    isrc := (userMetadataFirst track.userMetadata isrcKeyword).or track.isrc }

/-- The Tonepoet block wins for the fields it owns (cue_parser.rs:4748-4785). -/
def CueSheet.overlay (sheet : CueSheet) (metadata : ParsedTonepoetMetadata) : CueSheet :=
  let tracks := metadata.tracks.entries.foldl (fun tracks (ordinal, m) =>
    if ordinal = 0 then tracks else tracks.modify (ordinal - 1) fun track => { track with userMetadata := m }) sheet.tracks
  { title := (userMetadataFirst metadata.album albumKey).or sheet.title
    performer := (userMetadataFirst metadata.album albumArtistKey).or sheet.performer
    date := (userMetadataFirst metadata.album dateField).or sheet.date
    genre := (userMetadataFirst metadata.album genreField).or sheet.genre
    catalog := (userMetadataFirst metadata.album catalogNumberKey).or sheet.catalog
    userMetadata := metadata.album
    tonepoetMetadataPresent := metadata.present
    tracks := tracks.map CueTrack.overlay }

/-- A track without a performer has the album's. -/
def CueSheet.inheritPerformer (sheet : CueSheet) : CueSheet :=
  match sheet.performer with
  | some albumPerformer =>
    { sheet with tracks := sheet.tracks.map fun track => { track with performer := track.performer.or (some albumPerformer) } }
  | none => sheet

/-- `parse_cue` before its last loop. -/
def parseCueUninherited (content : Str) : CueSheet := (parseCueLines content).overlay (parseTonepoetMetadata content)

/-- `parse_cue` (cue_parser.rs:4593). -/
def parseCue (content : Str) : CueSheet := (parseCueUninherited content).inheritPerformer

/-! ## What the loop reads -/

/-- The fields of a track that the other scanners read too. -/
def CueTrack.key (track : CueTrack) : ℕ × Option Str × Option Str × Option Str × CueUserMetadata :=
  (track.number, track.title, track.performer, track.isrc, track.userMetadata)

/-- The same of a section. -/
def TrackSection.key (track : TrackSection (Str × ℕ)) : ℕ × Option Str × Option Str × Option Str × CueUserMetadata :=
  (track.number, lastValue (fun line => Directive.title.value (trimmedLine line)) track.lines,
    lastValue (fun line => Directive.performer.value (trimmedLine line)) track.lines,
    lastValue (fun line => Directive.isrc.value (trimmedLine line)) track.lines, .empty)

/-- The album's fields are the last values of its lines. -/
structure CueSheet.Album (sheet : CueSheet) (ls : List (Str × ℕ)) : Prop where
  title : sheet.title = lastValue (fun line => Directive.title.value (trimmedLine line)) ls
  performer : sheet.performer = lastValue (fun line => Directive.performer.value (trimmedLine line)) ls
  date : sheet.date = lastValue (fun line => Directive.date.value (trimmedLine line)) ls
  genre : sheet.genre = lastValue (fun line => Directive.genre.value (trimmedLine line)) ls
  catalog : sheet.catalog = lastValue (fun line => Directive.catalog.value (trimmedLine line)) ls

/-- The state after some lines, from their sections. -/
structure ParseState.Reads (s : ParseState) (t : Sections (Str × ℕ)) : Prop where
  album : s.sheet.Album t.album
  tracks : s.sheet.tracks.map CueTrack.key = t.tracks.map TrackSection.key
  current : s.currentTrack.toList.map CueTrack.key = t.scope.closed.map TrackSection.key
  ignored : s.ignoredTrackBlock = match t.scope with
    | .ignored => true
    | .album => false
    | .track _ => false

theorem elim_plain {β : Type} (line keyword : Str) (a : β) (f : Str → β) :
    (((stripKeywordCi line keyword).map trim).elim a fun val => if val.isEmpty then a else f val) =
      (parsePlainField line keyword).elim a f := by
  unfold parsePlainField
  cases stripKeywordCi line keyword with
  | none => rfl
  | some rest =>
    simp only [Option.map_some, Option.elim_some, Option.bind_eq_bind, Option.bind_some]
    split <;> rfl

/-- A line with a field's value sets that field of the album and no other. -/
theorem CueSheet.Album.readLine {sheet : CueSheet} {ls : List (Str × ℕ)} (h : sheet.Album ls) (line : Str × ℕ) :
    (sheet.readLine (trimmedLine line)).Album (ls ++ [line]) ∧ (sheet.readLine (trimmedLine line)).tracks = sheet.tracks := by
  obtain ⟨htitle, hperformer, hdate, hgenre, hcatalog⟩ := h
  unfold CueSheet.readLine
  rw [elim_plain]
  obtain ⟨d, v, hv⟩ := Directive.value_cases (trimmedLine line)
  have h1 := hv .title
  have h2 := hv .performer
  have h3 := hv .date
  have h4 := hv .genre
  have h5 := hv .catalog
  simp only [Directive.value] at h1 h2 h3 h4 h5
  rw [h1, h2, h3, h4, h5]
  cases v <;> cases d <;> exact ⟨by constructor <;> simp [hv, htitle, hperformer, hdate, hgenre, hcatalog], rfl⟩

theorem CueTrack.pushDirective_key (track : CueTrack) (trimmed : Str) : (track.pushDirective trimmed).key = track.key := by
  unfold CueTrack.pushDirective
  split
  · rfl
  split
  · rfl
  · rfl

theorem CueTrack.rebind_key (track : CueTrack) (file : Str) : (track.rebind file).key = track.key := by
  unfold CueTrack.rebind
  split <;> rfl

/-- An INDEX line is of no field. -/
theorem index_line_plain {line index : Str} {frames : ℕ} (h : parseIndexLine line index = some frames) (d : Directive) :
    d.value line = none := by
  unfold parseIndexLine at h
  obtain ⟨rest, hrest, -⟩ := Option.bind_eq_some_iff.1 h
  refine Directive.value_of_not_present (Bool.eq_false_iff.2 fun hd => ?_)
  have hnone : stripKeywordCi line d.keyword = none := stripKeywordCi_other hrest (by cases d <;> decide)
  have hsome := Directive.present_strip hd
  rw [hnone] at hsome
  cases hsome

/-- The same for a track. -/
theorem CueTrack.readLine_key {track : CueTrack} {current : TrackSection (Str × ℕ)} (h : track.key = current.key)
    (line : Str × ℕ) :
    (track.readLine (trimmedLine line)).key = { current with lines := current.lines ++ [line] }.key := by
  simp only [CueTrack.key, TrackSection.key, Prod.mk.injEq] at h
  obtain ⟨hnumber, htitle, hperformer, hisrc, hmetadata⟩ := h
  unfold CueTrack.readLine
  rw [elim_plain]
  obtain ⟨d, v, hv⟩ := Directive.value_cases (trimmedLine line)
  have h1 := hv .title
  have h2 := hv .performer
  have h3 := hv .isrc
  simp only [Directive.value] at h1 h2 h3
  cases v with
  | none =>
    have hkey : ({ current with lines := current.lines ++ [line] } : TrackSection (Str × ℕ)).key = track.key := by
      simp [CueTrack.key, TrackSection.key, hv, hnumber, htitle, hperformer, hisrc, hmetadata]
    rw [h1, h2, h3, hkey]
    simp only [ite_self]
    split
    · rfl
    split
    · rfl
    · exact track.pushDirective_key _
  | some v =>
    have hindex : ∀ index, parseIndexLine (trimmedLine line) index = none := by
      intro index
      by_contra hne
      obtain ⟨frames, hframes⟩ := Option.ne_none_iff_exists'.1 hne
      have hnone := index_line_plain hframes d
      rw [hv d, if_pos rfl] at hnone
      cases hnone
    rw [h1, h2, h3, hindex, hindex]
    cases d <;> simp only [reduceCtorEq, if_true, if_false, Option.elim_none, Option.elim_some, CueTrack.pushDirective_key] <;>
      simp [CueTrack.key, TrackSection.key, hv, hnumber, htitle, hperformer, hisrc, hmetadata]

/-- A line without a value changes no field of a section. -/
theorem lastValue_plain {ls : List (Str × ℕ)} {line : Str × ℕ} {d : Directive} (h : d.value (trimmedLine line) = none) :
    lastValue (fun line => d.value (trimmedLine line)) (ls ++ [line]) = lastValue (fun line => d.value (trimmedLine line)) ls := by
  rw [lastValue_concat, h, Option.none_or]

/-- **One line of `parse_cue`.** -/
theorem ParseState.Reads.step {s : ParseState} {t : Sections (Str × ℕ)} (h : s.Reads t) (line : Str × ℕ) :
    (s.step (trimmedLine line)).Reads (t.step true trimmedLine line) := by
  obtain ⟨halbum, htracks, hcurrent, hignored⟩ := h
  have hcommit : s.commit.tracks.map CueTrack.key = t.allTracks.map TrackSection.key := by
    simp only [ParseState.commit, Sections.allTracks, List.map_append, htracks, hcurrent]
  unfold ParseState.step Sections.step
  cases hfile : parseFileLine (trimmedLine line) with
  | some file =>
    obtain ⟨hheader, hplain⟩ := file_line_plain hfile
    have hnone : ∀ d : Directive, d.value (trimmedLine line) = none := fun d => Directive.value_of_not_present (hplain d)
    rw [hheader]
    cases hscope : t.scope with
    | album =>
      rw [hscope] at hcurrent
      have hcur : s.currentTrack = none := by simpa [Scope.closed] using hcurrent
      refine ⟨?_, htracks, by simp [hcur, Scope.closed], rfl⟩
      constructor
      · rw [lastValue_plain (hnone _)]; exact halbum.title
      · rw [lastValue_plain (hnone _)]; exact halbum.performer
      · rw [lastValue_plain (hnone _)]; exact halbum.date
      · rw [lastValue_plain (hnone _)]; exact halbum.genre
      · rw [lastValue_plain (hnone _)]; exact halbum.catalog
    | track current =>
      rw [hscope] at hcurrent
      refine ⟨halbum, htracks, ?_, rfl⟩
      cases hcur : s.currentTrack with
      | none => simp [hcur, Scope.closed] at hcurrent
      | some track =>
        have hkey : track.key = current.key := by simpa [hcur, Scope.closed] using hcurrent
        simp only [Option.map_some, Option.toList_some, List.map_singleton, Scope.closed, CueTrack.rebind_key, hkey,
          TrackSection.key, lastValue_plain (hnone _)]
    | ignored =>
      rw [hscope] at hcurrent
      have hcur : s.currentTrack = none := by simpa [Scope.closed] using hcurrent
      simp only [Option.isSome_some, Bool.and_self, if_true]
      exact ⟨halbum, htracks, by simp [hcur, Scope.closed], rfl⟩
  | none =>
    cases hheader : parseTrackHeader (trimmedLine line) with
    | some out =>
      obtain ⟨number, isAudio⟩ := out
      have halbum' : s.commit.Album t.album := ⟨halbum.title, halbum.performer, halbum.date, halbum.genre, halbum.catalog⟩
      cases isAudio
      · exact ⟨halbum', hcommit, rfl, rfl⟩
      · exact ⟨halbum', hcommit, rfl, rfl⟩
    | none =>
      dsimp only
      cases hscope : t.scope with
      | album =>
        rw [hscope] at hcurrent hignored
        have hcur : s.currentTrack = none := by simpa [Scope.closed] using hcurrent
        obtain ⟨hread, hsame⟩ := halbum.readLine line
        rw [if_neg (by rw [hignored]; exact Bool.false_ne_true), hcur]
        exact ⟨hread, by rw [hsame]; exact htracks, by simp [Scope.closed], hignored⟩
      | track current =>
        rw [hscope] at hcurrent hignored
        rw [if_neg (by rw [hignored]; exact Bool.false_ne_true)]
        cases hcur : s.currentTrack with
        | none => simp [hcur, Scope.closed] at hcurrent
        | some track =>
          have hkey : track.key = current.key := by simpa [hcur, Scope.closed] using hcurrent
          refine ⟨halbum, htracks, ?_, hignored⟩
          simp only [Option.toList_some, List.map_singleton, Scope.closed, CueTrack.readLine_key hkey]
      | ignored =>
        rw [hscope] at hcurrent hignored
        rw [if_pos hignored]
        simp only [Option.isSome_none, Bool.and_false, Bool.false_eq_true, if_false]
        exact ⟨halbum, htracks, by rw [hscope]; exact hcurrent, by rw [hscope]; exact hignored⟩

/-- **The loop of `parse_cue` reads sections**, with a FILE line as the end of a data track. -/
theorem parseCueLines_reads (content : Str) :
    (parseCueLines content).Album (Sections.of true trimmedLine (lines content).zipIdx).album ∧
      (parseCueLines content).tracks.map CueTrack.key =
        (Sections.of true trimmedLine (lines content).zipIdx).allTracks.map TrackSection.key := by
  have hrun : ∀ (ls : List (Str × ℕ)) {s : ParseState} {t : Sections (Str × ℕ)}, s.Reads t →
      (ls.foldl (fun s line => s.step (trimmedLine line)) s).Reads (ls.foldl (Sections.step true trimmedLine) t) := by
    intro ls
    induction ls with
    | nil => exact fun h => h
    | cons line ls ih => exact fun h => ih (h.step line)
  obtain ⟨halbum, htracks, hcurrent, -⟩ := hrun (lines content).zipIdx (s := {}) (t := .start)
    ⟨⟨rfl, rfl, rfl, rfl, rfl⟩, rfl, rfl, rfl⟩
  refine ⟨⟨halbum.title, halbum.performer, halbum.date, halbum.genre, halbum.catalog⟩, ?_⟩
  rw [parseCueLines, ParseState.commit, List.map_append, htracks, hcurrent, Sections.allTracks, List.map_append]
  rfl

end Cue
