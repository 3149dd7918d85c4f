import Mathlib.Data.List.Nodup
import Tonepoet.Cue.Sections

/-!
# Editing the lines of a sheet

An edit puts lines in the place of a line: a header with lines behind it in the place of a header, lines that are no
headers in the place of any other line. The sections of the edited sheet are then the edited sections
(`Sections.of_edited`).
-/

namespace Cue

open Rust

variable {α β : Type}

/-! ### The scopes divide the sheet -/

namespace Sections

/-- Lines that are no headers stay in the scope. -/
def extend (s : Sections α) (ls : List α) : Sections α :=
  match s.scope with
  | .album => { s with album := s.album ++ ls }
  | .track current => { s with scope := .track { current with lines := current.lines ++ ls } }
  | .ignored => s

section

variable {text : α → Str}

theorem step_audio {l : α} {number : ℕ} (h : parseTrackHeader (text l) = some (number, true)) (s : Sections α) :
    s.step false text l = { s with tracks := s.allTracks, scope := .track ⟨number, l, []⟩ } := by
  unfold Sections.step
  rw [h]

theorem step_data {l : α} {number : ℕ} (h : parseTrackHeader (text l) = some (number, false)) (s : Sections α) :
    s.step false text l = { s with tracks := s.allTracks, scope := .ignored } := by
  unfold Sections.step
  rw [h]

theorem step_plain {l : α} (h : parseTrackHeader (text l) = none) (s : Sections α) : s.step false text l = s.extend [l] := by
  unfold Sections.step extend
  rw [h]
  cases s.scope <;> rfl

theorem foldl_plain {ls : List α} (h : ∀ l ∈ ls, parseTrackHeader (text l) = none) (s : Sections α) :
    ls.foldl (Sections.step false text) s = s.extend ls := by
  induction ls generalizing s with
  | nil =>
    obtain ⟨album, tracks, scope⟩ := s
    cases scope <;> simp [extend]
  | cons l ls ih =>
    rw [List.foldl_cons, ih fun l' hl' => h l' (List.mem_cons_of_mem _ hl'), step_plain (h l List.mem_cons_self)]
    cases hscope : s.scope <;> simp [extend, hscope]

end

/-- The lines of all scopes, in the order of the sheet. -/
def allLines (s : Sections α) : List α := s.album ++ s.allTracks.flatMap fun t => t.header :: t.lines

/-- What holds of the sections of `ls`. -/
structure Divide (text : α → Str) (ls : List α) (s : Sections α) : Prop where
  sublist : s.allLines.Sublist ls
  albumLine : ∀ l ∈ s.album, parseTrackHeader (text l) = none
  header : ∀ t ∈ s.allTracks, parseTrackHeader (text t.header) = some (t.number, true)
  line : ∀ t ∈ s.allTracks, ∀ l ∈ t.lines, parseTrackHeader (text l) = none
  albumFirst : s.scope = .album → s.allTracks = []

theorem Divide.step {text : α → Str} {ls : List α} {s : Sections α} (h : Divide text ls s) (l : α) :
    Divide text (ls ++ [l]) (s.step false text l) := by
  obtain ⟨hsublist, halbum, hheader, hline, hfirst⟩ := h
  have hgrow : s.allLines.Sublist (ls ++ [l]) := hsublist.trans (List.sublist_append_left _ _)
  cases hl : parseTrackHeader (text l) with
  | some out =>
    obtain ⟨number, isAudio⟩ := out
    cases isAudio with
    | false =>
      rw [step_data hl]
      refine ⟨?_, halbum, ?_, ?_, fun h => by cases h⟩
      · simpa [allLines, allTracks, Scope.closed] using hgrow
      · simpa [allTracks, Scope.closed] using hheader
      · simpa [allTracks, Scope.closed] using hline
    | true =>
      rw [step_audio hl]
      refine ⟨?_, halbum, ?_, ?_, fun h => by cases h⟩
      · have happend := hsublist.append_right [l]
        simpa [allLines, allTracks, Scope.closed] using happend
      · intro t ht
        rcases List.mem_append.1 ht with ht | ht
        · exact hheader t ht
        · obtain rfl := List.mem_singleton.1 ht
          exact hl
      · intro t ht
        rcases List.mem_append.1 ht with ht | ht
        · exact hline t ht
        · obtain rfl := List.mem_singleton.1 ht
          exact fun _ hl' => absurd hl' List.not_mem_nil
  | none =>
    rw [step_plain hl]
    unfold extend
    cases hscope : s.scope with
    | album =>
      have htracks := hfirst hscope
      have htracks' : s.tracks = [] := (List.append_eq_nil_iff.1 htracks).1
      refine ⟨?_, ?_, ?_, ?_, fun _ => ?_⟩
      · have happend := hsublist.append_right [l]
        simpa [allLines, allTracks, Scope.closed, hscope, htracks'] using happend
      · intro l' hl'
        rcases List.mem_append.1 hl' with hl' | hl'
        · exact halbum l' hl'
        · obtain rfl := List.mem_singleton.1 hl'
          exact hl
      · simp [allTracks, Scope.closed, htracks']
      · simp [allTracks, Scope.closed, htracks']
      · simp [allTracks, Scope.closed, htracks']
    | ignored => exact ⟨hgrow, halbum, hheader, hline, fun h => hfirst h⟩
    | track current =>
      refine ⟨?_, halbum, ?_, ?_, fun h => by cases h⟩
      · have happend := hsublist.append_right [l]
        simpa [allLines, allTracks, Scope.closed, hscope] using happend
      · intro t ht
        rcases List.mem_append.1 ht with ht | ht
        · exact hheader t (List.mem_append_left _ ht)
        · obtain rfl := List.mem_singleton.1 ht
          exact hheader current (by simp [allTracks, Scope.closed, hscope])
      · intro t ht l' hl'
        rcases List.mem_append.1 ht with ht | ht
        · exact hline t (List.mem_append_left _ ht) l' hl'
        · obtain rfl := List.mem_singleton.1 ht
          rcases List.mem_append.1 hl' with hl' | hl'
          · exact hline current (by simp [allTracks, Scope.closed, hscope]) l' hl'
          · obtain rfl := List.mem_singleton.1 hl'
            exact hl

/-- **The scopes divide the sheet.** -/
theorem divide_of (text : α → Str) (ls : List α) : Divide text ls (of false text ls) := by
  induction ls using List.reverseRecOn with
  | nil => exact ⟨List.Sublist.refl _, nofun, nofun, nofun, fun _ => rfl⟩
  | append_singleton ls l ih =>
    rw [of, List.foldl_concat]
    exact ih.step l

end Sections

/-! ### Edits -/

/-- What an edit makes of a header and of any other line. -/
structure LineEdit (α β : Type) where
  number : α → ℕ
  header : α → β
  /-- The lines that are put behind a header. -/
  inserted : α → List β
  body : α → List β

namespace LineEdit

variable (e : LineEdit α β)

/-- The lines in the place of a line. -/
def lines (text : α → Str) (l : α) : List β :=
  match parseTrackHeader (text l) with
  | some (_, true) => e.header l :: e.inserted l
  | some (_, false) => [e.header l]
  | none => e.body l

def track (t : TrackSection α) : TrackSection β := ⟨e.number t.header, e.header t.header, e.inserted t.header ++ t.lines.flatMap e.body⟩

def scope : Scope α → Scope β
  | .album => .album
  | .track current => .track (e.track current)
  | .ignored => .ignored

/-- The edited sections, with `more` before the lines of the album. -/
def sections (more : List β) (s : Sections α) : Sections β where
  album := more ++ s.album.flatMap e.body
  tracks := s.tracks.map e.track
  scope := e.scope s.scope

/-- An edit keeps headers headers, and other lines no headers. -/
structure Keeps (text : α → Str) (text' : β → Str) (l : α) : Prop where
  audio : ∀ {number}, parseTrackHeader (text l) = some (number, true) → parseTrackHeader (text' (e.header l)) = some (e.number l, true)
  data : ∀ {number}, parseTrackHeader (text l) = some (number, false) → ∃ number', parseTrackHeader (text' (e.header l)) = some (number', false)
  inserted : ∀ l' ∈ e.inserted l, parseTrackHeader (text' l') = none
  body : parseTrackHeader (text l) = none → ∀ l' ∈ e.body l, parseTrackHeader (text' l') = none

variable {e}

theorem allTracks_sections (more : List β) (s : Sections α) : (e.sections more s).allTracks = s.allTracks.map e.track := by
  cases hscope : s.scope <;> simp [sections, Sections.allTracks, Scope.closed, scope, hscope]

end LineEdit

namespace LineEdit

variable {e : LineEdit α β} {text : α → Str} {text' : β → Str}

theorem step_sections {l : α} (h : e.Keeps text text' l) (more : List β) (s : Sections α) :
    (e.lines text l).foldl (Sections.step false text') (e.sections more s) = e.sections more (s.step false text l) := by
  unfold lines
  cases hl : parseTrackHeader (text l) with
  | some out =>
    obtain ⟨number, isAudio⟩ := out
    cases isAudio with
    | false =>
      obtain ⟨number', hheader⟩ := h.data hl
      dsimp only
      rw [List.foldl_cons, List.foldl_nil, Sections.step_data hheader, Sections.step_data hl, allTracks_sections]
      rfl
    | true =>
      dsimp only
      rw [List.foldl_cons, Sections.foldl_plain h.inserted, Sections.step_audio (h.audio hl), Sections.step_audio hl,
        allTracks_sections]
      simp [Sections.extend, sections, scope, track]
  | none =>
    dsimp only
    rw [Sections.foldl_plain (h.body hl), Sections.step_plain hl]
    cases hscope : s.scope <;> simp [Sections.extend, sections, scope, track, hscope]

/-- **The sections of an edited sheet are the edited sections.** -/
theorem foldl_sections {ls : List α} (h : ∀ l ∈ ls, e.Keeps text text' l) (more : List β) (s : Sections α) :
    (ls.flatMap (e.lines text)).foldl (Sections.step false text') (e.sections more s) =
      e.sections more (ls.foldl (Sections.step false text) s) := by
  induction ls generalizing s with
  | nil => rfl
  | cons l ls ih =>
    rw [List.flatMap_cons, List.foldl_append, step_sections (h l List.mem_cons_self), List.foldl_cons,
      ih fun l' hl' => h l' (List.mem_cons_of_mem _ hl')]

end LineEdit

/-! ### The last value of edited lines -/

theorem lastValue_append {β : Type} (value : α → Option β) (ls more : List α) :
    lastValue value (ls ++ more) = (lastValue value more).or (lastValue value ls) := by
  induction more using List.reverseRecOn with
  | nil => rw [List.append_nil, lastValue_nil, Option.none_or]
  | append_singleton more l ih => rw [← List.append_assoc, lastValue_concat, lastValue_concat, ih, Option.or_assoc]

theorem lastValue_flatMap {γ : Type} {value : α → Option γ} {value' : β → Option γ} {f : α → List β} {ls : List α}
    (h : ∀ l ∈ ls, lastValue value' (f l) = value l) : lastValue value' (ls.flatMap f) = lastValue value ls := by
  induction ls using List.reverseRecOn with
  | nil => rfl
  | append_singleton ls l ih =>
    rw [List.flatMap_append, List.flatMap_singleton, lastValue_append, lastValue_concat, h l (by simp),
      ih fun l' hl' => h l' (List.mem_append_left _ hl')]

theorem lastValue_eq_none {β : Type} {value : α → Option β} {ls : List α} (h : ∀ l ∈ ls, value l = none) :
    lastValue value ls = none := by
  induction ls using List.reverseRecOn with
  | nil => rfl
  | append_singleton ls l ih =>
    rw [lastValue_concat, h l (by simp), Option.none_or, ih fun l' hl' => h l' (List.mem_append_left _ hl')]

end Cue
