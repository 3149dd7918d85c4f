import Tonepoet.Cue.LineParsing

/-!
# Sections of a CUE sheet

Which lines belong to the album and which to each audio track; the lines of a data track belong to nothing. The
scanners of cue_parser.rs are read off the sections: a field's value is the last one its section gives.
-/

namespace Cue

open Rust

/-- An audio track: its number, its header and the lines after it. -/
structure TrackSection (α : Type) where
  number : ℕ
  header : α
  lines : List α

/-- What the next line belongs to. -/
inductive Scope (α : Type) where
  | album
  | track (current : TrackSection α)
  | ignored

def Scope.closed {α : Type} : Scope α → List (TrackSection α)
  | .track current => [current]
  | .album => []
  | .ignored => []

structure Sections (α : Type) where
  album : List α
  /-- The tracks that are complete. -/
  tracks : List (TrackSection α)
  scope : Scope α

namespace Sections

variable {α : Type}

def start : Sections α := ⟨[], [], .album⟩

def allTracks (s : Sections α) : List (TrackSection α) := s.tracks ++ s.scope.closed

/-- One line. A FILE line may end the block of a data track: then the album is next. -/
def step (fileEndsBlock : Bool) (text : α → Str) (s : Sections α) (line : α) : Sections α :=
  match parseTrackHeader (text line) with
  | some (number, true) => { s with tracks := s.allTracks, scope := .track ⟨number, line, []⟩ }
  | some (_, false) => { s with tracks := s.allTracks, scope := .ignored }
  | none =>
    match s.scope with
    | .album => { s with album := s.album ++ [line] }
    | .track current => { s with scope := .track { current with lines := current.lines ++ [line] } }
    | .ignored => if fileEndsBlock && (parseFileLine (text line)).isSome then { s with scope := .album } else s

def of (fileEndsBlock : Bool) (text : α → Str) (ls : List α) : Sections α := ls.foldl (step fileEndsBlock text) start

theorem step_congr {f g : α → Str} {line : α} (h : f line = g line) (fileEndsBlock : Bool) (s : Sections α) :
    step fileEndsBlock f s line = step fileEndsBlock g s line := by
  unfold step
  rw [h]

theorem of_congr {f g : α → Str} (fileEndsBlock : Bool) {ls : List α} (h : ∀ l ∈ ls, f l = g l) :
    of fileEndsBlock f ls = of fileEndsBlock g ls :=
  List.foldl_ext _ _ _ fun s l hl => step_congr (h l hl) fileEndsBlock s

end Sections

/-- A FILE line stands in the block of a data track. -/
def fileInDataTrack (ignored : Bool) : List Str → Bool
  | [] => false
  | line :: ls =>
    match parseTrackHeader line with
    | some (_, isAudio) => fileInDataTrack (!isAudio) ls
    | none => (ignored && (parseFileLine line).isSome) || fileInDataTrack ignored ls

/-- The last value in a list of lines. -/
def lastValue {α β : Type} (value : α → Option β) (ls : List α) : Option β := ls.foldl (fun last line => (value line).or last) none

@[simp] theorem lastValue_nil {α β : Type} (value : α → Option β) : lastValue value [] = none := rfl

@[simp] theorem lastValue_concat {α β : Type} (value : α → Option β) (ls : List α) (line : α) :
    lastValue value (ls ++ [line]) = (value line).or (lastValue value ls) := by
  simp [lastValue]

theorem lastValue_none {α β : Type} (ls : List α) : lastValue (fun _ => (none : Option β)) ls = none := by
  induction ls using List.reverseRecOn with
  | nil => rfl
  | append_singleton ls line ih => rw [lastValue_concat, ih, Option.none_or]

/-! ### With and without the rule about FILE lines -/

section FileRule

variable {α : Type} {text : α → Str}

/-- The two readings of a sheet: the same tracks, and the same album unless a FILE line has ended a block. -/
structure SameTracks (s t : Sections α) : Prop where
  tracks : s.allTracks = t.allTracks
  scope : s.scope = t.scope ∨ s.scope = .album ∧ t.scope = .ignored

theorem SameTracks.step {s t : Sections α} (h : SameTracks s t) (line : α) :
    SameTracks (s.step true text line) (t.step false text line) := by
  obtain ⟨htracks, hscope⟩ := h
  unfold Sections.step
  split
  case h_1 number hheader => exact ⟨by simp only [Sections.allTracks, Scope.closed] at htracks ⊢; rw [htracks], .inl rfl⟩
  case h_2 number hheader => exact ⟨by simp only [Sections.allTracks, Scope.closed] at htracks ⊢; rw [htracks], .inl rfl⟩
  case h_3 hheader =>
    rcases hscope with hscope | ⟨hs, ht⟩
    · cases hcase : t.scope with
      | album =>
        rw [hcase] at hscope
        simp only [Sections.allTracks, Scope.closed, hscope, hcase] at htracks ⊢
        exact ⟨htracks, .inl rfl⟩
      | track current =>
        rw [hcase] at hscope
        simp only [Sections.allTracks, Scope.closed, hscope, hcase] at htracks ⊢
        exact ⟨by simpa [Sections.allTracks, Scope.closed] using htracks, .inl rfl⟩
      | ignored =>
        rw [hcase] at hscope
        simp only [Sections.allTracks, Scope.closed, hscope, hcase] at htracks ⊢
        by_cases hfile : (parseFileLine (text line)).isSome = true
        · simp only [hfile, Bool.and_self, if_true, Bool.false_and, Bool.false_eq_true, if_false]
          exact ⟨by simpa [Sections.allTracks, Scope.closed, hcase] using htracks, .inr ⟨rfl, hcase⟩⟩
        · simp only [hfile, Bool.and_false, Bool.false_eq_true, if_false]
          exact ⟨by simpa [Sections.allTracks, Scope.closed, hscope, hcase] using htracks, .inl (hscope.trans hcase.symm)⟩
    · simp only [hs, ht, Bool.false_and, Bool.false_eq_true, if_false]
      refine ⟨?_, .inr ⟨rfl, ht⟩⟩
      simpa [Sections.allTracks, Scope.closed, hs, ht] using htracks

theorem allTracks_of (ls : List α) : (Sections.of true text ls).allTracks = (Sections.of false text ls).allTracks := by
  have h : ∀ (ls : List α) {s t : Sections α}, SameTracks s t →
      SameTracks (ls.foldl (Sections.step true text) s) (ls.foldl (Sections.step false text) t) := by
    intro ls
    induction ls with
    | nil => exact fun h => h
    | cons line ls ih => exact fun h => ih (h.step line)
  exact (h ls ⟨rfl, .inl rfl⟩).tracks

/-- Without a FILE line in a data track the rule is not used. -/
theorem of_eq_of_no_file {ls : List α} (h : fileInDataTrack false (ls.map text) = false) :
    Sections.of true text ls = Sections.of false text ls := by
  have hrun : ∀ (ls : List α) (s : Sections α) (ignored : Bool), (s.scope = .ignored → ignored = true) →
      fileInDataTrack ignored (ls.map text) = false →
      ls.foldl (Sections.step true text) s = ls.foldl (Sections.step false text) s := by
    intro ls
    induction ls with
    | nil => exact fun _ _ _ _ => rfl
    | cons line ls ih =>
      intro s ignored hs hfile
      rw [List.map_cons, fileInDataTrack] at hfile
      rw [List.foldl_cons, List.foldl_cons]
      cases hheader : parseTrackHeader (text line) with
      | some out =>
        obtain ⟨number, isAudio⟩ := out
        rw [hheader] at hfile
        have hstep : Sections.step true text s line = Sections.step false text s line := by
          unfold Sections.step
          rw [hheader]
          cases isAudio <;> rfl
        rw [hstep]
        refine ih _ (!isAudio) (fun hscope => ?_) hfile
        unfold Sections.step at hscope
        rw [hheader] at hscope
        cases isAudio
        · rfl
        · cases hscope
      | none =>
        rw [hheader] at hfile
        obtain ⟨hhere, hrest⟩ := (Bool.or_eq_false_iff).1 hfile
        have hstep : Sections.step true text s line = Sections.step false text s line := by
          unfold Sections.step
          rw [hheader]
          cases hscope : s.scope with
          | album => rfl
          | track current => rfl
          | ignored =>
            rw [hs hscope, Bool.true_and] at hhere
            simp only [hhere, Bool.and_false]
        rw [hstep]
        refine ih _ ignored (fun hscope => hs ?_) hrest
        unfold Sections.step at hscope
        rw [hheader] at hscope
        cases hcase : s.scope with
        | ignored => rfl
        | album => simp [hcase] at hscope
        | track current => simp [hcase] at hscope
  exact hrun ls .start false nofun h

end FileRule
end Cue
