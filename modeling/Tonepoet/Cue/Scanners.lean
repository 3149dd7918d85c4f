import Tonepoet.Cue.Sections

/-!
# Three scanners of one CUE sheet (cue_parser.rs:2531, 4001, 4593)

`parse_cue`, `explicit_cue_metadata` and `cue_metadata_layout` each read a sheet line by line and keep the scope of
the next line in variables of their own.
-/

namespace Cue

open Rust

def byteOrderMark : Char := '\uFEFF'

/-- A line of `content.lines().enumerate()` without the byte order mark the first one may have, trimmed. -/
def trimmedLine (line : Str × ℕ) : Str :=
  trim (if line.2 = 0 then line.1.dropWhile (· == byteOrderMark) else line.1)

/-! ## `explicit_cue_metadata` and `cue_metadata_layout` -/

/-- What both keep while they read: the record of the album, those of the audio tracks, and the scope. -/
structure ScopeScan (R : Type) where
  album : R
  tracks : List R
  currentTrack : Option ℕ
  ignoredTrackBlock : Bool

namespace ScopeScan

variable {α R : Type} (text : α → Str) (newTrack : ℕ → α → R) (recordAlbum recordTrack : R → α → R)

/-- The body of the loop of both. -/
def step (s : ScopeScan R) (line : α) : ScopeScan R :=
  match parseTrackHeader (text line) with
  | some (number, isAudio) =>
    if isAudio then
      let tracks := s.tracks ++ [newTrack number line]
      { s with tracks := tracks, currentTrack := some (tracks.length - 1), ignoredTrackBlock := false }
    else { s with currentTrack := none, ignoredTrackBlock := true }
  | none =>
    if s.ignoredTrackBlock then s
    else
      match s.currentTrack with
      | some trackIdx => { s with tracks := s.tracks.modify trackIdx fun record => recordTrack record line }
      | none => { s with album := recordAlbum s.album line }

/-- The record of a section. -/
def build (track : TrackSection α) : R := track.lines.foldl recordTrack (newTrack track.number track.header)

/-- What the scanner holds when it has read these sections. -/
def holding (album : R) (s : Sections α) : ScopeScan R where
  album := s.album.foldl recordAlbum album
  tracks := s.allTracks.map (build newTrack recordTrack)
  currentTrack := match s.scope with
    | .track _ => some s.tracks.length
    | .album => none
    | .ignored => none
  ignoredTrackBlock := match s.scope with
    | .ignored => true
    | .album => false
    | .track _ => false

theorem step_holding (album : R) (s : Sections α) (line : α) :
    step text newTrack recordAlbum recordTrack (holding newTrack recordAlbum recordTrack album s) line =
      holding newTrack recordAlbum recordTrack album (s.step false text line) := by
  unfold step Sections.step
  cases hheader : parseTrackHeader (text line) with
  | some out =>
    obtain ⟨number, isAudio⟩ := out
    cases isAudio
    · simp [holding, Sections.allTracks, Scope.closed]
    · simp [holding, Sections.allTracks, Scope.closed, build]
  | none =>
    cases hscope : s.scope with
    | album => simp [holding, Sections.allTracks, Scope.closed, hscope]
    | ignored => simp [holding, hscope]
    | track current =>
      have hmodify : ∀ (init : List R) (r : R), (init ++ [r]).modify init.length (fun r => recordTrack r line) =
          init ++ [recordTrack r line] := by
        intro init r
        induction init with
        | nil => rfl
        | cons r' init ih => rw [List.cons_append, List.length_cons, List.modify_succ_cons, ih, List.cons_append]
      have hlast := hmodify (s.tracks.map (build newTrack recordTrack)) (build newTrack recordTrack current)
      rw [List.length_map] at hlast
      simp only [holding, hscope, Sections.allTracks, Scope.closed, List.map_append, List.map_singleton, hlast,
        Bool.false_eq_true, if_false]
      simp [build]

/-- **The scanner reads sections.** -/
theorem foldl_step (album : R) (ls : List α) :
    ls.foldl (step text newTrack recordAlbum recordTrack) ⟨album, [], none, false⟩ =
      holding newTrack recordAlbum recordTrack album (Sections.of false text ls) := by
  have h : ∀ (ls : List α) (s : Sections α),
      ls.foldl (step text newTrack recordAlbum recordTrack) (holding newTrack recordAlbum recordTrack album s) =
        holding newTrack recordAlbum recordTrack album (ls.foldl (Sections.step false text) s) := by
    intro ls
    induction ls with
    | nil => exact fun _ => rfl
    | cons line ls ih =>
      intro s
      rw [List.foldl_cons, List.foldl_cons, step_holding, ih]
  exact h ls .start

end ScopeScan

/-! ### Values -/

structure ExplicitCueScopeMetadata where
  trackNumber : Option ℕ := none
  title : Option Str := none
  performer : Option Str := none
  songwriter : Option Str := none
  date : Option Str := none
  genre : Option Str := none
  catalog : Option Str := none
  isrc : Option Str := none

namespace ExplicitCueScopeMetadata

def field (m : ExplicitCueScopeMetadata) : Directive → Option Str
  | .title => m.title
  | .performer => m.performer
  | .songwriter => m.songwriter
  | .date => m.date
  | .genre => m.genre
  | .catalog => m.catalog
  | .isrc => m.isrc

/-- A line of a track (cue_parser.rs:2567). -/
def recordTrack (m : ExplicitCueScopeMetadata) (trimmed : Str) : ExplicitCueScopeMetadata :=
  if let some value := parseQuotedField trimmed titleKeyword then { m with title := some value }
  else if let some value := parseQuotedField trimmed performerKeyword then { m with performer := some value }
  else if let some value := parseQuotedField trimmed songwriterKeyword then { m with songwriter := some value }
  else if let some value := parsePlainField trimmed isrcKeyword then { m with isrc := some value }
  else m

/-- A line of the album (cue_parser.rs:2580). -/
def recordAlbum (m : ExplicitCueScopeMetadata) (trimmed : Str) : ExplicitCueScopeMetadata :=
  if let some value := parseQuotedField trimmed titleKeyword then { m with title := some value }
  else if let some value := parseQuotedField trimmed performerKeyword then { m with performer := some value }
  else if let some value := parseQuotedField trimmed songwriterKeyword then { m with songwriter := some value }
  else if let some value := (parseRemField trimmed dateField).or (parseRemField trimmed yearField) then
    { m with date := some value }
  else if let some value := parseRemField trimmed genreField then { m with genre := some value }
  else if let some value := parsePlainField trimmed catalogKeyword then { m with catalog := some value }
  else m

end ExplicitCueScopeMetadata

structure ExplicitCueMetadata where
  album : ExplicitCueScopeMetadata
  tracks : List ExplicitCueScopeMetadata
  tonepoetMetadata : Option ParsedTonepoetMetadata

/-- `explicit_cue_metadata` (cue_parser.rs:2531). -/
def explicitCueMetadata (text : Str) : ExplicitCueMetadata :=
  let tonepoetMetadata := parseTonepoetMetadata text
  let scan := (lines text).zipIdx.foldl
    (ScopeScan.step trimmedLine (fun number _ => { trackNumber := some number })
      (fun m line => m.recordAlbum (trimmedLine line)) fun m line => m.recordTrack (trimmedLine line))
    ⟨{}, [], none, false⟩
  ⟨scan.album, scan.tracks, if tonepoetMetadata.present then some tonepoetMetadata else none⟩

/-! ### Line numbers -/

structure CueTextLine where
  body : Str
  eol : Str

/-- The loop of `split_cue_lines_preserving_eol` (cue_parser.rs:4106) over the bytes from `idx` on; `line` is
    `text[start..idx]`. -/
def splitCueLinesLoop (line : Str) : Str → List CueTextLine
  | [] => if line.isEmpty then [] else [⟨line, []⟩]
  | c :: rest =>
    if c = '\n' then
      (if line.getLast? = some '\r' then ⟨line.dropLast, ['\r', '\n']⟩ else ⟨line, ['\n']⟩) :: splitCueLinesLoop [] rest
    else splitCueLinesLoop (line ++ [c]) rest

def splitCueLinesPreservingEol (text : Str) : List CueTextLine := splitCueLinesLoop [] text

structure CueScopeLayout where
  trackNumber : Option ℕ := none
  trackHeader : Option ℕ := none
  title : Option ℕ := none
  performer : Option ℕ := none
  songwriter : Option ℕ := none
  date : Option ℕ := none
  genre : Option ℕ := none
  catalog : Option ℕ := none
  isrc : Option ℕ := none
  authoritativeDuplicates : List ℕ := []
  insertAfter : Option ℕ := none
  indent : Option Str := none

namespace CueScopeLayout

def line (layout : CueScopeLayout) : Directive → Option ℕ
  | .title => layout.title
  | .performer => layout.performer
  | .songwriter => layout.songwriter
  | .date => layout.date
  | .genre => layout.genre
  | .catalog => layout.catalog
  | .isrc => layout.isrc

/-- `if let Some(previous) = layout.….replace(idx) { layout.authoritative_duplicates.push(previous) }`. -/
def keepDuplicate (layout : CueScopeLayout) (previous : Option ℕ) : CueScopeLayout :=
  { layout with authoritativeDuplicates := layout.authoritativeDuplicates ++ previous.toList }

/-- The indentation of the first line that is recorded. -/
def noteIndent (layout : CueScopeLayout) (body : Str) : CueScopeLayout :=
  if layout.indent.isNone then { layout with indent := some (body.takeWhile isWhitespace) } else layout

/-- `record_scope_line` (cue_parser.rs:4060). -/
def recordScopeLine (layout : CueScopeLayout) (idx : ℕ) (body : Str) (albumScope : Bool) : CueScopeLayout :=
  let trimmed := trim body
  if (parseQuotedField trimmed titleKeyword).isSome then
    ({ layout with title := some idx }.keepDuplicate layout.title).noteIndent body
  else if (parseQuotedField trimmed performerKeyword).isSome then
    ({ layout with performer := some idx }.keepDuplicate layout.performer).noteIndent body
  else if (parseQuotedField trimmed songwriterKeyword).isSome then { layout with songwriter := some idx }.noteIndent body
  else if !albumScope && (stripKeywordCi trimmed isrcKeyword).isSome then
    ({ layout with isrc := some idx }.keepDuplicate layout.isrc).noteIndent body
  else if albumScope && (remFieldIsPresent trimmed dateField || remFieldIsPresent trimmed yearField) then
    ({ layout with date := some idx }.keepDuplicate layout.date).noteIndent body
  else if albumScope && remFieldIsPresent trimmed genreField then
    ({ layout with genre := some idx }.keepDuplicate layout.genre).noteIndent body
  else if albumScope && (stripKeywordCi trimmed catalogKeyword).isSome then
    ({ layout with catalog := some idx }.keepDuplicate layout.catalog).noteIndent body
  else layout

/-- The layout of a track whose header is line `idx`. -/
def ofHeader (number idx : ℕ) (body : Str) : CueScopeLayout where
  trackNumber := some number
  trackHeader := some idx
  insertAfter := some idx
  indent := some (body.takeWhile isWhitespace ++ [' ', ' '])

end CueScopeLayout

structure CueMetadataLayout where
  album : CueScopeLayout
  tracks : List CueScopeLayout
  albumInsertAt : ℕ

/-- `cue_metadata_layout` (cue_parser.rs:4001). -/
def cueMetadataLayout (ls : List CueTextLine) : CueMetadataLayout :=
  let scan := (ls.map CueTextLine.body).zipIdx.foldl
    (ScopeScan.step (fun line => trim line.1) (fun number line => CueScopeLayout.ofHeader number line.2 line.1)
      (fun layout line => layout.recordScopeLine line.2 line.1 true) fun layout line => layout.recordScopeLine line.2 line.1 false)
    ⟨{}, [], none, false⟩
  let albumInsertAt := ls.findIdx fun line =>
    (stripKeywordCi (trim line.body) fileKeyword).isSome || (stripKeywordCi (trim line.body) trackKeyword).isSome
  ⟨scan.album, scan.tracks, albumInsertAt⟩

/-! ## The fields of a section -/

namespace Directive

/-- A line gives a value to at most one field. -/
theorem value_cases (line : Str) : ∃ d v, ∀ d' : Directive, d'.value line = if d' = d then v else none := by
  by_cases h : ∃ d v, Directive.value d line = some v
  · obtain ⟨d, v, hv⟩ := h
    refine ⟨d, some v, fun d' => ?_⟩
    split
    case isTrue heq => rw [heq, hv]
    case isFalse hne => exact value_other (present_of_value hv) hne
  · simp only [not_exists] at h
    refine ⟨title, none, fun d => ?_⟩
    rw [ite_self]
    exact Option.eq_none_iff_forall_not_mem.2 (h d)

theorem present_cases (line : Str) : ∃ d b, ∀ d' : Directive, d'.present line = (b && decide (d' = d)) := by
  by_cases h : ∃ d, Directive.present d line = true
  · obtain ⟨d, hd⟩ := h
    refine ⟨d, true, fun d' => ?_⟩
    rw [Bool.true_and]
    by_cases heq : d' = d
    · rw [heq, hd, decide_eq_true rfl]
    · rw [decide_eq_false heq, Bool.eq_false_iff]
      exact fun hd' => heq (present_unique hd' hd)
  · simp only [not_exists, Bool.not_eq_true] at h
    exact ⟨title, false, h⟩

/-- The fields of the album; those of a track. -/
def ofAlbum (d : Directive) : Bool := d != isrc

def ofTrack : Directive → Bool
  | title | performer | songwriter | isrc => true
  | date | genre | catalog => false

end Directive

/-- A record that takes a field's value from every line that has one. -/
theorem foldl_field {α R β : Type} {f : R → Option β} {r : R → α → R} {value : α → Option β}
    (h : ∀ m line, f (r m line) = (value line).or (f m)) (ls : List α) (m : R) :
    f (ls.foldl r m) = (lastValue value ls).or (f m) := by
  induction ls using List.reverseRecOn with
  | nil => rfl
  | append_singleton ls line ih => rw [List.foldl_concat, h, ih, lastValue_concat, Option.or_assoc]

namespace ExplicitCueScopeMetadata

theorem recordAlbum_field (d : Directive) (m : ExplicitCueScopeMetadata) (line : Str) :
    (m.recordAlbum line).field d = (if d.ofAlbum then d.value line else none).or (m.field d) := by
  obtain ⟨d₀, v, h⟩ := Directive.value_cases line
  have htitle := h .title
  have hperformer := h .performer
  have hsongwriter := h .songwriter
  have hdate := h .date
  have hgenre := h .genre
  have hcatalog := h .catalog
  simp only [Directive.value] at htitle hperformer hsongwriter hdate hgenre hcatalog
  rw [h d, recordAlbum, htitle, hperformer, hsongwriter, hdate, hgenre, hcatalog]
  cases v <;> cases d₀ <;> cases d <;> simp [field, Directive.ofAlbum]

theorem recordTrack_field (d : Directive) (m : ExplicitCueScopeMetadata) (line : Str) :
    (m.recordTrack line).field d = (if d.ofTrack then d.value line else none).or (m.field d) := by
  obtain ⟨d₀, v, h⟩ := Directive.value_cases line
  have htitle := h .title
  have hperformer := h .performer
  have hsongwriter := h .songwriter
  have hisrc := h .isrc
  simp only [Directive.value] at htitle hperformer hsongwriter hisrc
  rw [h d, recordTrack, htitle, hperformer, hsongwriter, hisrc]
  cases v <;> cases d₀ <;> cases d <;> simp [field, Directive.ofTrack]

theorem recordTrack_number (m : ExplicitCueScopeMetadata) (line : Str) : (m.recordTrack line).trackNumber = m.trackNumber := by
  unfold recordTrack
  repeat' split
  all_goals rfl

theorem recordAlbum_number (m : ExplicitCueScopeMetadata) (line : Str) : (m.recordAlbum line).trackNumber = m.trackNumber := by
  unfold recordAlbum
  repeat' split
  all_goals rfl

end ExplicitCueScopeMetadata

namespace CueScopeLayout

@[simp] theorem keepDuplicate_line (layout : CueScopeLayout) (previous : Option ℕ) (d : Directive) :
    (layout.keepDuplicate previous).line d = layout.line d := by
  cases d <;> rfl

@[simp] theorem noteIndent_line (layout : CueScopeLayout) (body : Str) (d : Directive) :
    (layout.noteIndent body).line d = layout.line d := by
  unfold noteIndent
  split
  · cases d <;> rfl
  · rfl

@[simp] theorem keepDuplicate_number (layout : CueScopeLayout) (previous : Option ℕ) :
    (layout.keepDuplicate previous).trackNumber = layout.trackNumber := rfl

@[simp] theorem noteIndent_number (layout : CueScopeLayout) (body : Str) :
    (layout.noteIndent body).trackNumber = layout.trackNumber := by
  unfold noteIndent
  split <;> rfl

theorem recordScopeLine_line {d : Directive} {albumScope : Bool} (hd : (if albumScope then d.ofAlbum else d.ofTrack) = true)
    (layout : CueScopeLayout) (idx : ℕ) (body : Str) :
    (layout.recordScopeLine idx body albumScope).line d =
      (if d.present (trim body) then some idx else none).or (layout.line d) := by
  unfold recordScopeLine
  obtain ⟨d₀, b, h⟩ := Directive.present_cases (trim body)
  have htitle := h .title
  have hperformer := h .performer
  have hsongwriter := h .songwriter
  have hdate := h .date
  have hgenre := h .genre
  have hcatalog := h .catalog
  have hisrc := h .isrc
  simp only [Directive.present] at htitle hperformer hsongwriter hdate hgenre hcatalog hisrc
  rw [h d]
  dsimp only
  rw [htitle, hperformer, hsongwriter, hdate, hgenre, hcatalog, hisrc]
  cases b
  · simp
  · cases albumScope <;> cases d₀ <;> simp <;> cases d <;> simp_all [line, Directive.ofAlbum, Directive.ofTrack]

theorem recordScopeLine_number (layout : CueScopeLayout) (idx : ℕ) (body : Str) (albumScope : Bool) :
    (layout.recordScopeLine idx body albumScope).trackNumber = layout.trackNumber := by
  unfold recordScopeLine
  dsimp only
  repeat' split
  all_goals simp

end CueScopeLayout

end Cue
