import Mathlib.Data.List.Forall2
import Tonepoet.Cue.CueSheet

/-!
# The scanners agree

All three scanners are read off the sections of the sheet (`ScopeScan.foldl_step`, `parseCueLines_reads`), so they
agree where the sections do: on the tracks always, on the album unless a FILE line ends the block of a data track.
-/

namespace Cue

open Rust

/-! ## Lines -/

theorem bodies_splitCueLinesLoop {line : Str} (h : '\n' ∉ line) (rest : Str) :
    (splitCueLinesLoop line rest).map CueTextLine.body = lines (line ++ rest) := by
  induction rest generalizing line with
  | nil =>
    rw [splitCueLinesLoop, List.append_nil]
    cases line with
    | nil => rfl
    | cons c line =>
      have hlast : (c :: line).getLast? ≠ some '\n' := fun hl => h (List.mem_of_getLast? hl)
      rw [lines, splitInclusive_of_not_mem h (by simp), List.map_singleton, stripLineEnding, if_neg hlast]
      rfl
  | cons c rest ih =>
    rw [splitCueLinesLoop]
    by_cases hc : c = '\n'
    · subst hc
      rw [if_pos rfl, lines, splitInclusive_append h, List.map_cons, List.map_cons, ih (List.not_mem_nil), stripLineEnding,
        List.getLast?_concat, if_pos rfl, List.dropLast_concat]
      dsimp only
      split <;> rfl
    · rw [if_neg hc, ih (by simp [h, Ne.symm hc]), List.append_assoc]
      rfl

/-- Both ways to cut a text into lines find the same lines. -/
theorem bodies_splitCueLines (text : Str) : (splitCueLinesPreservingEol text).map CueTextLine.body = lines text :=
  bodies_splitCueLinesLoop List.not_mem_nil text

/-- The first line starts with a byte order mark only if the text does. -/
theorem head_lines {text line : Str} {ls : List Str} (h : lines text = line :: ls) (hc : line.head? = some byteOrderMark) :
    text.head? = some byteOrderMark := by
  cases text with
  | nil => cases h
  | cons c cs =>
    have hfirst : ∃ tl more, splitInclusive (c :: cs) = (c :: tl) :: more := by
      rw [splitInclusive]
      split
      · exact ⟨[], _, rfl⟩
      · split
        · exact ⟨[], _, rfl⟩
        · exact ⟨_, _, rfl⟩
    obtain ⟨tl, more, hsplit⟩ := hfirst
    rw [lines, hsplit, List.map_cons, List.cons.injEq] at h
    have hprefix : line <+: c :: tl := by
      rw [← h.1, stripLineEnding]
      dsimp only
      split
      · split
        · exact (List.dropLast_prefix _).trans (List.dropLast_prefix _)
        · exact List.dropLast_prefix _
      · exact List.prefix_rfl
    obtain ⟨d, line, rfl⟩ := List.exists_cons_of_ne_nil (show line ≠ [] by rintro rfl; cases hc)
    obtain ⟨more', hmore⟩ := hprefix
    rw [List.cons_append, List.cons.injEq] at hmore
    rw [List.head?_cons, ← hmore.1]
    exact hc

/-- Without a byte order mark the lines are only trimmed. -/
theorem trimmedLine_eq {text : Str} (h : text.head? ≠ some byteOrderMark) {line : Str × ℕ} (hline : line ∈ (lines text).zipIdx) :
    trimmedLine line = trim line.1 := by
  obtain ⟨body, i⟩ := line
  rw [List.mem_zipIdx_iff_getElem?] at hline
  unfold trimmedLine
  split
  case isTrue hzero =>
    dsimp only at hzero hline
    subst hzero
    cases hls : lines text with
    | nil => rw [hls] at hline; cases hline
    | cons first ls =>
      rw [hls, List.getElem?_cons_zero, Option.some.injEq] at hline
      subst hline
      cases first with
      | nil => rfl
      | cons c cs =>
        have hne : c ≠ byteOrderMark := by
          rintro rfl
          exact h (head_lines hls rfl)
        rw [List.dropWhile_cons_of_neg (by simpa using hne)]
  case isFalse => rfl

/-! ## The lines of a section -/

/-- A section's lines are lines of the text. -/
def Sections.Within {α : Type} (ls : List α) (s : Sections α) : Prop :=
  (∀ l ∈ s.album, l ∈ ls) ∧ ∀ t ∈ s.allTracks, ∀ l ∈ t.lines, l ∈ ls

theorem Sections.within_of {α : Type} (fileEndsBlock : Bool) (text : α → Str) (ls : List α) :
    (Sections.of fileEndsBlock text ls).Within ls := by
  induction ls using List.reverseRecOn with
  | nil => exact ⟨nofun, nofun⟩
  | append_singleton ls line ih =>
    obtain ⟨halbum, htracks⟩ := ih
    unfold Sections.of at halbum htracks ⊢
    rw [List.foldl_concat]
    generalize ls.foldl (Sections.step fileEndsBlock text) .start = s at halbum htracks ⊢
    have halbum' : ∀ l ∈ s.album, l ∈ ls ++ [line] := fun l hl => List.mem_append_left _ (halbum l hl)
    have htracks' : ∀ t ∈ s.allTracks, ∀ l ∈ t.lines, l ∈ ls ++ [line] :=
      fun t ht l hl => List.mem_append_left _ (htracks t ht l hl)
    unfold Sections.step
    split
    · refine ⟨halbum', fun t ht l hl => ?_⟩
      rcases List.mem_append.1 ht with ht | ht
      · exact htracks' t ht l hl
      · obtain rfl := List.mem_singleton.1 ht
        cases hl
    · refine ⟨halbum', fun t ht l hl => ?_⟩
      rcases List.mem_append.1 ht with ht | ht
      · exact htracks' t ht l hl
      · cases ht
    · split
      case h_1 hscope =>
        refine ⟨fun l hl => ?_, by simpa [Sections.allTracks, hscope] using htracks'⟩
        rcases List.mem_append.1 hl with hl | hl
        · exact halbum' l hl
        · exact List.mem_append_right _ hl
      case h_2 current hscope =>
        refine ⟨halbum', fun t ht l hl => ?_⟩
        rcases List.mem_append.1 ht with ht | ht
        · exact htracks' t (List.mem_append_left _ ht) l hl
        · obtain rfl := List.mem_singleton.1 ht
          rcases List.mem_append.1 hl with hl | hl
          · exact htracks' current (List.mem_append_right _ (by rw [hscope]; exact List.mem_singleton_self _)) l hl
          · exact List.mem_append_right _ hl
      case h_3 hscope =>
        split
        · refine ⟨halbum', fun t ht => ?_⟩
          exact htracks' t (by simpa [Sections.allTracks, Scope.closed, hscope] using ht)
        · exact ⟨halbum', htracks'⟩

/-- The line of a field that is recorded last has the field's value, or none. -/
theorem lastValue_recorded {d : Directive} {ls : List (Str × ℕ)} {v : Str}
    (h : lastValue (fun line => d.value (trim line.1)) ls = some v) :
    ∃ line ∈ ls, lastValue (fun line => if d.present (trim line.1) then some line.2 else none) ls = some line.2 ∧
      d.present (trim line.1) = true ∧ (d.value (trim line.1) = some v ∨ d.value (trim line.1) = none) := by
  induction ls using List.reverseRecOn with
  | nil => cases h
  | append_singleton ls line ih =>
    rw [lastValue_concat] at h
    cases hpresent : d.present (trim line.1) with
    | true =>
      refine ⟨line, by simp, by rw [lastValue_concat, hpresent]; rfl, hpresent, ?_⟩
      cases hvalue : d.value (trim line.1) with
      | none => exact .inr rfl
      | some w =>
        rw [hvalue] at h
        exact .inl h
    | false =>
      rw [Directive.value_of_not_present hpresent, Option.none_or] at h
      obtain ⟨line', hmem, hlast, hp, hv⟩ := ih h
      exact ⟨line', List.mem_append_left _ hmem, by rw [lastValue_concat, hpresent]; exact hlast, hp, hv⟩

/-! ## A sheet without a Tonepoet block -/

/-- Records before a `BEGIN` are not read. -/
theorem parseTonepoetMetadata_absent {text : Str} (h : (parseTonepoetMetadata text).present = false) :
    (parseTonepoetMetadata text).album = .empty ∧ (parseTonepoetMetadata text).tracks = .empty := by
  have hrun : ∀ (ls : List Str) (s : ParsedTonepoetMetadata × Bool),
      (s.1.present = false → s.1.album = .empty ∧ s.1.tracks = .empty ∧ s.2 = false) →
      ((ls.foldl metadataStep s).1.present = false →
        (ls.foldl metadataStep s).1.album = .empty ∧ (ls.foldl metadataStep s).1.tracks = .empty) := by
    intro ls
    induction ls with
    | nil => exact fun s hs hp => ⟨(hs hp).1, (hs hp).2.1⟩
    | cons line ls ih =>
      intro s hs
      refine ih _ fun hp => ?_
      obtain ⟨parsed, inBlock⟩ := s
      unfold metadataStep at hp ⊢
      dsimp only at hs hp ⊢
      split at hp
      · cases hp
      · exact ⟨(hs hp).1, (hs hp).2.1, rfl⟩
      · split at hp
        case isTrue hin => rw [(hs hp).2.2] at hin; cases hin
        case isFalse hin => rw [if_neg hin]; exact hs hp
      · split at hp
        case isTrue hin => rw [(hs hp).2.2] at hin; cases hin
        case isFalse hin => rw [if_neg hin]; exact hs hp
      · exact hs hp
  exact hrun (lines text) _ (fun _ => ⟨rfl, rfl, rfl⟩) h

theorem CueTrack.overlay_key {track : CueTrack} (h : track.userMetadata = .empty) : track.overlay.key = track.key := by
  simp [CueTrack.overlay, CueTrack.key, h, userMetadataFirst]

/-- The overlay of a sheet without a block changes nothing that was read. -/
theorem parseCueUninherited_reads {text : Str} (h : (parseTonepoetMetadata text).present = false) :
    (parseCueUninherited text).Album (Sections.of true trimmedLine (lines text).zipIdx).album ∧
      (parseCueUninherited text).tracks.map CueTrack.key =
        (Sections.of true trimmedLine (lines text).zipIdx).allTracks.map TrackSection.key := by
  obtain ⟨halbum, htracks⟩ := parseTonepoetMetadata_absent h
  obtain ⟨hsheet, hkeys⟩ := parseCueLines_reads text
  have hempty : ∀ track ∈ (parseCueLines text).tracks, track.userMetadata = .empty := by
    intro track htrack
    have hmem := List.mem_map_of_mem (f := CueTrack.key) htrack
    rw [hkeys] at hmem
    obtain ⟨t, -, ht⟩ := List.mem_map.1 hmem
    exact (congrArg (fun k => k.2.2.2.2) ht).symm
  have hfirst : ∀ key, userMetadataFirst (parseTonepoetMetadata text).album key = none := fun key => by rw [halbum]; rfl
  unfold parseCueUninherited CueSheet.overlay
  simp only [hfirst, Option.none_or]
  refine ⟨⟨hsheet.title, hsheet.performer, hsheet.date, hsheet.genre, hsheet.catalog⟩, ?_⟩
  rw [htracks, OrderedMap.Map.entries_empty, List.foldl_nil, List.map_map, ← hkeys]
  exact List.map_congr_left fun track htrack => CueTrack.overlay_key (hempty track htrack)

/-! ## The records of the other two scanners -/

section Records

variable (ls : List (Str × ℕ))

/-- The record `explicit_cue_metadata` makes of a track. -/
def explicitTrack (t : TrackSection (Str × ℕ)) : ExplicitCueScopeMetadata :=
  t.lines.foldl (fun m line => m.recordTrack (trimmedLine line)) { trackNumber := some t.number }

def explicitAlbum : ExplicitCueScopeMetadata := ls.foldl (fun m line => m.recordAlbum (trimmedLine line)) {}

/-- The layout `cue_metadata_layout` makes of a track. -/
def layoutTrack (t : TrackSection (Str × ℕ)) : CueScopeLayout :=
  t.lines.foldl (fun layout line => layout.recordScopeLine line.2 line.1 false) (.ofHeader t.number t.header.2 t.header.1)

def layoutAlbum : CueScopeLayout := ls.foldl (fun layout line => layout.recordScopeLine line.2 line.1 true) {}

theorem explicitCueMetadata_eq (text : Str) :
    (explicitCueMetadata text).album = explicitAlbum (Sections.of false trimmedLine (lines text).zipIdx).album ∧
      (explicitCueMetadata text).tracks = (Sections.of false trimmedLine (lines text).zipIdx).allTracks.map explicitTrack := by
  simp only [explicitCueMetadata, ScopeScan.foldl_step]
  exact ⟨rfl, rfl⟩

theorem cueMetadataLayout_eq (text : Str) :
    (cueMetadataLayout (splitCueLinesPreservingEol text)).album =
        layoutAlbum (Sections.of false (fun line => trim line.1) (lines text).zipIdx).album ∧
      (cueMetadataLayout (splitCueLinesPreservingEol text)).tracks =
        (Sections.of false (fun line => trim line.1) (lines text).zipIdx).allTracks.map layoutTrack := by
  simp only [cueMetadataLayout, bodies_splitCueLines, ScopeScan.foldl_step]
  exact ⟨rfl, rfl⟩

theorem explicitAlbum_field (d : Directive) :
    (explicitAlbum ls).field d = if d.ofAlbum then lastValue (fun line => d.value (trimmedLine line)) ls else none := by
  have h := foldl_field (f := fun m : ExplicitCueScopeMetadata => m.field d)
    (fun m (line : Str × ℕ) => m.recordAlbum_field d (trimmedLine line)) ls {}
  have hinit : ({} : ExplicitCueScopeMetadata).field d = none := by cases d <;> rfl
  rw [explicitAlbum, h, hinit, Option.or_none]
  split
  · rfl
  · exact lastValue_none ls

theorem explicitTrack_field (t : TrackSection (Str × ℕ)) (d : Directive) :
    (explicitTrack t).field d = if d.ofTrack then lastValue (fun line => d.value (trimmedLine line)) t.lines else none := by
  have h := foldl_field (f := fun m : ExplicitCueScopeMetadata => m.field d)
    (fun m (line : Str × ℕ) => m.recordTrack_field d (trimmedLine line)) t.lines { trackNumber := some t.number }
  have hinit : ({ trackNumber := some t.number } : ExplicitCueScopeMetadata).field d = none := by cases d <;> rfl
  rw [explicitTrack, h, hinit, Option.or_none]
  split
  · rfl
  · exact lastValue_none t.lines

theorem explicitTrack_number (t : TrackSection (Str × ℕ)) : (explicitTrack t).trackNumber = some t.number :=
  List.foldlRecOn t.lines _ (motive := fun m => ExplicitCueScopeMetadata.trackNumber m = some t.number) rfl
    fun m hm line _ => by rw [ExplicitCueScopeMetadata.recordTrack_number, hm]

theorem layoutTrack_number (t : TrackSection (Str × ℕ)) : (layoutTrack t).trackNumber = some t.number :=
  List.foldlRecOn t.lines _ (motive := fun m => CueScopeLayout.trackNumber m = some t.number) rfl
    fun m hm line _ => by rw [CueScopeLayout.recordScopeLine_number, hm]

theorem explicitAlbum_number : (explicitAlbum ls).trackNumber = none :=
  List.foldlRecOn ls _ (motive := fun m => ExplicitCueScopeMetadata.trackNumber m = none) rfl
    fun m hm line _ => by rw [ExplicitCueScopeMetadata.recordAlbum_number, hm]

theorem layoutAlbum_number : (layoutAlbum ls).trackNumber = none :=
  List.foldlRecOn ls _ (motive := fun m => CueScopeLayout.trackNumber m = none) rfl
    fun m hm line _ => by rw [CueScopeLayout.recordScopeLine_number, hm]

theorem layoutAlbum_line {d : Directive} (hd : d.ofAlbum = true) :
    (layoutAlbum ls).line d = lastValue (fun line => if d.present (trim line.1) then some line.2 else none) ls := by
  have h := foldl_field (f := fun layout : CueScopeLayout => layout.line d) (r := fun layout (line : Str × ℕ) =>
    layout.recordScopeLine line.2 line.1 true) (fun layout line => layout.recordScopeLine_line (by simpa using hd) line.2 line.1) ls {}
  have hinit : ({} : CueScopeLayout).line d = none := by cases d <;> rfl
  rw [layoutAlbum, h, hinit, Option.or_none]

theorem layoutTrack_line (t : TrackSection (Str × ℕ)) {d : Directive} (hd : d.ofTrack = true) :
    (layoutTrack t).line d = lastValue (fun line => if d.present (trim line.1) then some line.2 else none) t.lines := by
  have h := foldl_field (f := fun layout : CueScopeLayout => layout.line d) (r := fun layout (line : Str × ℕ) =>
    layout.recordScopeLine line.2 line.1 false) (fun layout line => layout.recordScopeLine_line (by simpa using hd) line.2 line.1)
    t.lines (.ofHeader t.number t.header.2 t.header.1)
  have hinit : (CueScopeLayout.ofHeader t.number t.header.2 t.header.1).line d = none := by cases d <;> rfl
  rw [layoutTrack, h, hinit, Option.or_none]

end Records

/-! ## Agreement -/

/-- The same audio tracks with the same values. -/
theorem same_tracks {text : Str} (h : (parseTonepoetMetadata text).present = false) :
    ((parseCueUninherited text).tracks.map fun t => (some t.number, t.title, t.performer, t.isrc)) =
      (explicitCueMetadata text).tracks.map fun t => (t.trackNumber, t.title, t.performer, t.isrc) := by
  have hkeys := (parseCueUninherited_reads h).2
  rw [allTracks_of] at hkeys
  have hmap := congrArg (List.map fun k : ℕ × Option Str × Option Str × Option Str × CueUserMetadata =>
    (some k.1, k.2.1, k.2.2.1, k.2.2.2.1)) hkeys
  rw [List.map_map, List.map_map] at hmap
  refine hmap.trans ?_
  rw [(explicitCueMetadata_eq text).2, List.map_map]
  refine List.map_congr_left fun t _ => ?_
  have htitle := explicitTrack_field t .title
  have hperformer := explicitTrack_field t .performer
  have hisrc := explicitTrack_field t .isrc
  simp only [Directive.ofTrack, if_true, ExplicitCueScopeMetadata.field] at htitle hperformer hisrc
  simp only [Function.comp_apply, explicitTrack_number, htitle, hperformer, hisrc, TrackSection.key]

/-- The same album, where no FILE line ends the block of a data track. -/
theorem same_album {text : Str} (h : (parseTonepoetMetadata text).present = false)
    (hfile : fileInDataTrack false ((lines text).zipIdx.map trimmedLine) = false) :
    (parseCueUninherited text).title = (explicitCueMetadata text).album.title ∧
      (parseCueUninherited text).performer = (explicitCueMetadata text).album.performer ∧
      (parseCueUninherited text).date = (explicitCueMetadata text).album.date ∧
      (parseCueUninherited text).genre = (explicitCueMetadata text).album.genre ∧
      (parseCueUninherited text).catalog = (explicitCueMetadata text).album.catalog := by
  obtain ⟨htitle, hperformer, hdate, hgenre, hcatalog⟩ := (parseCueUninherited_reads h).1
  rw [of_eq_of_no_file hfile] at htitle hperformer hdate hgenre hcatalog
  have hfield := explicitAlbum_field (Sections.of false trimmedLine (lines text).zipIdx).album
  rw [(explicitCueMetadata_eq text).1]
  exact ⟨htitle.trans (hfield .title).symm, hperformer.trans (hfield .performer).symm, hdate.trans (hfield .date).symm,
    hgenre.trans (hfield .genre).symm, hcatalog.trans (hfield .catalog).symm⟩

/-- `metadata` and `layout` are records of one scope of the text: a field that is set has its value on the line that the
    layout records, unless that line is one of the field without a value. -/
def Recorded (text : Str) (metadata : ExplicitCueScopeMetadata) (layout : CueScopeLayout) : Prop :=
  metadata.trackNumber = layout.trackNumber ∧ ∀ d v, metadata.field d = some v → ∃ idx line, layout.line d = some idx ∧
    (lines text)[idx]? = some line ∧
    (d.value (trim line) = some v ∨ d.value (trim line) = none ∧ d.present (trim line) = true ∧ d ≠ .title ∧ d ≠ .performer)

/-- A quoted field is recorded with its value only. -/
theorem recorded_value {d : Directive} {line : Str} {v : Str} (hpresent : d.present line = true)
    (h : d.value line = some v ∨ d.value line = none) :
    d.value line = some v ∨ d.value line = none ∧ d.present line = true ∧ d ≠ .title ∧ d ≠ .performer := by
  rcases h with h | h
  · exact .inl h
  · refine .inr ⟨h, hpresent, ?_, ?_⟩
    · rintro rfl
      simp only [Directive.value] at h
      simp [Directive.present, h] at hpresent
    · rintro rfl
      simp only [Directive.value] at h
      simp [Directive.present, h] at hpresent

/-- From the lines of a scope to the records of the two scanners. -/
theorem recorded_of_lastValue {text : Str} {ls : List (Str × ℕ)} (hls : ∀ l ∈ ls, l ∈ (lines text).zipIdx) {d : Directive}
    {v : Str} {layout : CueScopeLayout}
    (hlayout : layout.line d = lastValue (fun line => if d.present (trim line.1) then some line.2 else none) ls)
    (h : lastValue (fun line => d.value (trim line.1)) ls = some v) :
    ∃ idx line, layout.line d = some idx ∧ (lines text)[idx]? = some line ∧
      (d.value (trim line) = some v ∨ d.value (trim line) = none ∧ d.present (trim line) = true ∧ d ≠ .title ∧ d ≠ .performer) := by
  obtain ⟨⟨line, idx⟩, hmem, hlast, hpresent, hvalue⟩ := lastValue_recorded h
  exact ⟨idx, line, hlayout.trans hlast, List.mem_zipIdx_iff_getElem?.1 (hls _ hmem), recorded_value hpresent hvalue⟩

theorem lastValue_congr {ls : List (Str × ℕ)} {f g : Str × ℕ → Option Str} (h : ∀ l ∈ ls, f l = g l) :
    lastValue f ls = lastValue g ls := by
  induction ls using List.reverseRecOn with
  | nil => rfl
  | append_singleton ls line ih =>
    rw [lastValue_concat, lastValue_concat, h line (by simp), ih fun l hl => h l (List.mem_append_left _ hl)]

/-- The layout records the lines of the values. -/
theorem recorded_scopes {text : Str} (hbom : text.head? ≠ some byteOrderMark) :
    Recorded text (explicitCueMetadata text).album (cueMetadataLayout (splitCueLinesPreservingEol text)).album ∧
      List.Forall₂ (Recorded text) (explicitCueMetadata text).tracks
        (cueMetadataLayout (splitCueLinesPreservingEol text)).tracks := by
  have htrim : ∀ l ∈ (lines text).zipIdx, trimmedLine l = trim l.1 := fun l hl => trimmedLine_eq hbom hl
  obtain ⟨halbum, htracks⟩ := explicitCueMetadata_eq text
  obtain ⟨hlayout, hlayouts⟩ := cueMetadataLayout_eq text
  rw [Sections.of_congr false htrim] at halbum htracks
  obtain ⟨hin, hins⟩ := Sections.within_of false (fun line => trim line.1) (lines text).zipIdx
  rw [halbum, htracks, hlayout, hlayouts]
  have hvalue : ∀ {ls : List (Str × ℕ)} (d : Directive), (∀ l ∈ ls, l ∈ (lines text).zipIdx) →
      lastValue (fun line => d.value (trimmedLine line)) ls = lastValue (fun line => d.value (trim line.1)) ls := by
    intro ls d hls
    exact lastValue_congr fun l hl => by rw [htrim l (hls l hl)]
  refine ⟨⟨?_, fun d v hd => ?_⟩, ?_⟩
  · rw [explicitAlbum_number, layoutAlbum_number]
  · rw [explicitAlbum_field] at hd
    split at hd
    case isTrue hof =>
      rw [hvalue d hin] at hd
      exact recorded_of_lastValue hin (layoutAlbum_line _ hof) hd
    case isFalse => cases hd
  · rw [List.forall₂_map_left_iff, List.forall₂_map_right_iff]
    refine List.forall₂_same.2 fun t ht => ⟨by rw [explicitTrack_number, layoutTrack_number], fun d v hd => ?_⟩
    rw [explicitTrack_field] at hd
    split at hd
    case isTrue hof =>
      rw [hvalue d (hins t ht)] at hd
      exact recorded_of_lastValue (hins t ht) (layoutTrack_line t hof) hd
    case isFalse => cases hd

/-- A sheet with one audio track: both scanners read its ISRC, the layout records the empty line behind it. -/
def sampleSheet : Str :=
  trackKeyword ++ [' ', '7', ' '] ++ audioMode ++ ['\n'] ++ isrcKeyword ++ [' ', 'X', '\n'] ++ isrcKeyword ++ ['\n']

/-- A sheet with a data track, a FILE line and a title behind it. -/
def dataTrackSheet : Str :=
  trackKeyword ++ [' ', '1', ' ', 'M', 'O', 'D', 'E', '1', '\n'] ++ fileKeyword ++ [' ', '"', 'a', '"', '\n'] ++
    titleKeyword ++ [' ', '"', 'X', '"', '\n']

end Cue
