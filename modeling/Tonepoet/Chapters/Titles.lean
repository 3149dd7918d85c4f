import Tonepoet.Chapters.ChapterWrite

/-!
# Titles through the ffmetadata text

A title is escaped for FFmpeg with its line ends and tabs made spaces, and it is trimmed when the chapters are read back. Nothing trims it
before it is written, so that a title is read back as it was only when neither of the two changes it.
-/

namespace Chapters

open Rust

/-- What a reader of the text makes of an escaped value. -/
def ffmetadataUnescape : Str → Str
  | [] => []
  | [character] => if character = '\\' then [] else [character]
  | '\\' :: character :: value => character :: ffmetadataUnescape value
  | character :: next :: value => character :: ffmetadataUnescape (next :: value)

/-- The title as `read_embedded_chapters` returns it (chapter_structure.rs:121). -/
def readTitle (title : Str) : Option Str :=
  let value := trim title
  if value = [] then none else some value

/-- Line ends and tabs are written as spaces. -/
def spaced (character : Char) : Char :=
  if character = '\r' ∨ character = '\n' ∨ character = '\t' then ' ' else character

/-- A title that is kept as it is, or is replaced by the chapter's number. -/
def TitleKept (title : Str) : Prop := trim title = [] ∨ (trim title = title ∧ ∀ c ∈ title, c ≠ '\r' ∧ c ≠ '\n' ∧ c ≠ '\t')

/-! ## The text -/

theorem ffmetadataUnescape_escaped (c : Char) (value : Str) : ffmetadataUnescape ('\\' :: c :: value) = c :: ffmetadataUnescape value := by
  rw [ffmetadataUnescape]

theorem ffmetadataUnescape_plain {c : Char} (hc : c ≠ '\\') (value : Str) :
    ffmetadataUnescape (c :: value) = c :: ffmetadataUnescape value := by
  cases value with
  | nil => exact if_neg hc
  | cons next value =>
    rw [ffmetadataUnescape]
    exact hc

theorem ffmetadataUnescape_escape (title : Str) : ffmetadataUnescape (ffmetadataEscape title) = title.map spaced := by
  induction title with
  | nil => rfl
  | cons c title ih =>
    unfold ffmetadataEscape
    rw [List.map_cons, ← ih, spaced]
    split_ifs with hspecial hblank hblank
    · rcases hspecial with rfl | rfl | rfl | rfl <;> simp at hblank
    · rw [ffmetadataUnescape_escaped]
    · exact ffmetadataUnescape_plain (by decide) _
    · exact ffmetadataUnescape_plain (fun h => hspecial (Or.inl h)) _

/-! ## The titles that are kept -/

theorem trim_trim (s : Str) : trim (trim s) = trim s := by
  cases hs : trimStart s with
  | nil =>
    unfold trim
    rw [hs]
    rfl
  | cons c more =>
    have hc : isWhitespace c = false := by
      have h := List.head?_dropWhile_not isWhitespace s
      rw [← trimStart, hs] at h
      simpa using h
    have htrim : trim s = c :: trimEnd more := by rw [trim, hs, trimEnd_cons hc]
    rw [htrim, trim_cons hc]
    exact congrArg (c :: ·) (List.rdropWhile_idempotent _ _)

theorem mem_of_mem_trim {c : Char} {s : Str} (h : c ∈ trim s) : c ∈ s :=
  (List.dropWhile_suffix _).subset ((List.rdropWhile_prefix _ _).subset h)

theorem spaced_ne (c : Char) : spaced c ≠ '\r' ∧ spaced c ≠ '\n' ∧ spaced c ≠ '\t' := by
  unfold spaced
  split_ifs with h
  · decide
  · exact ⟨fun h' => h (Or.inl h'), fun h' => h (Or.inr (Or.inl h')), fun h' => h (Or.inr (Or.inr h'))⟩

theorem map_spaced {title : Str} (h : ∀ c ∈ title, c ≠ '\r' ∧ c ≠ '\n' ∧ c ≠ '\t') : title.map spaced = title := by
  refine (List.map_congr_left fun c hc => ?_).trans (List.map_id title)
  obtain ⟨hreturn, hline, htab⟩ := h c hc
  exact if_neg (by simp [hreturn, hline, htab])

/-- A title that is read back as it was written. -/
theorem readTitle_written {title : Str} (hne : trim title ≠ []) :
    readTitle (ffmetadataUnescape (ffmetadataEscape title)) = some title ↔ TitleKept title := by
  rw [ffmetadataUnescape_escape]
  unfold readTitle TitleKept
  constructor
  · intro h
    dsimp only at h
    split_ifs at h with hblank
    have htitle : trim (title.map spaced) = title := Option.some_inj.1 h
    refine Or.inr ⟨?_, fun c hc => ?_⟩
    · calc trim title = trim (trim (title.map spaced)) := by rw [htitle]
        _ = trim (title.map spaced) := trim_trim _
        _ = title := htitle
    · rw [← htitle] at hc
      obtain ⟨d, -, rfl⟩ := List.mem_map.1 (mem_of_mem_trim hc)
      exact spaced_ne d
  · rintro (h | ⟨htrim, hplain⟩)
    · exact absurd h hne
    · rw [map_spaced hplain]
      exact (if_neg hne).trans (congrArg some htrim)

theorem trim_chapter (number : ℕ) : trim ("Chapter ".toList ++ formatNat number) = "Chapter ".toList ++ formatNat number := by
  have hdigits : formatNat number ≠ [] := Nat.toDigits_ne_nil
  have hend : ∀ front : Str, trimEnd (front ++ formatNat number) = front ++ formatNat number := by
    intro front
    refine List.rdropWhile_eq_self_iff.2 fun hne hspace => ?_
    rw [List.getLast_append_of_ne_nil _ hdigits] at hspace
    have hdigit := Nat.isDigit_of_mem_toDigits (by decide) (by decide) (List.getLast_mem hdigits)
    rw [isWhitespace_of_isDigit hdigit] at hspace
    cases hspace
  have hC : isWhitespace 'C' = false := rfl
  calc trim ('C' :: ("hapter ".toList ++ formatNat number)) = 'C' :: trimEnd ("hapter ".toList ++ formatNat number) := trim_cons hC _
    _ = 'C' :: ("hapter ".toList ++ formatNat number) := by rw [hend]

theorem titleKept_chapter (number : ℕ) : TitleKept ("Chapter ".toList ++ formatNat number) := by
  refine Or.inr ⟨trim_chapter number, fun c hc => ?_⟩
  rcases List.mem_append.1 hc with hword | hdigits
  · have hplain : ∀ c ∈ "Chapter ".toList, c ≠ '\r' ∧ c ≠ '\n' ∧ c ≠ '\t' := by decide
    exact hplain c hword
  · have hdigit := Nat.isDigit_of_mem_toDigits (by decide) (by decide) hdigits
    refine ⟨?_, ?_, ?_⟩ <;> rintro rfl <;> cases hdigit

/-- The title of an entry is read back just when the author's is one that is kept. -/
theorem readTitle_entryTitle (number : ℕ) (title : Str) :
    readTitle (ffmetadataUnescape (ffmetadataEscape (entryTitle number title))) = some (entryTitle number title) ↔ TitleKept title := by
  unfold entryTitle
  split_ifs with hblank
  · have hne : trim ("Chapter ".toList ++ formatNat number) ≠ [] := by
      rw [trim_chapter]
      exact List.append_ne_nil_of_left_ne_nil (by decide) _
    exact ⟨fun _ => Or.inl hblank, fun _ => (readTitle_written hne).2 (titleKept_chapter number)⟩
  · exact readTitle_written hblank

end Chapters
