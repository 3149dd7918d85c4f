import Tonepoet.Cue.FileReferences
import Tonepoet.Cue.ScannerAgreement

/-!
# Rewriting FILE references (cue_parser.rs:4871-4902)

`compose_cue_file_reference_replacement` puts mapped names where their references stand and copies everything else. The
result has the lines of the text, and `parse_cue` finds the same sheet in it but for the names. The check on the
replacements lets names pass that a line without quotes does not give back.
-/

namespace Cue

open Rust OrderedMap

abbrev FileReplacements := OrderedMap.Map Str Str

def FileReplacements.get (replacements : FileReplacements) (reference : Str) : Option Str := replacements.entries.lookup reference

inductive FileReplacementError where
  | unsafeReference (replacement : Str)

/-- The characters that no FILE line can hold in a name. -/
def unrepresentable (replacement : Str) : Bool := replacement.any fun ch => ch == '\r' || ch == '\n' || ch == '"'

/-- The body of the loop over the lines. -/
def FileReplacements.rewriteLine (replacements : FileReplacements) (line : CueTextLine) : CueTextLine :=
  match cueFileReferenceSpan line.body with
  | some (reference, start, stop) =>
    match replacements.get reference with
    | some replacement => { line with body := replaceReference line.body replacement start stop }
    | none => line
  | none => line

def CueTextLine.text (line : CueTextLine) : Str := line.body ++ line.eol

/-- `compose_cue_file_reference_replacement` (cue_parser.rs:4876). -/
def composeCueFileReferenceReplacement (templateCuesheet : Str) (replacements : FileReplacements) :
    Except FileReplacementError Str :=
  if replacements.entries.isEmpty then .ok templateCuesheet
  else
    match (replacements.entries.map Prod.snd).find? unrepresentable with
    | some replacement => .error (.unsafeReference replacement)
    | none => .ok (((splitCueLinesPreservingEol templateCuesheet).map replacements.rewriteLine).flatMap CueTextLine.text)

/-! ## What the rewriting is for -/

/-- A mapped reference is read as its new name; any other line, and every line ending, is as it was. -/
structure LineReplaced (replacements : FileReplacements) (line line' : CueTextLine) : Prop where
  eol : line'.eol = line.eol
  body : match (parseFileLine (trim line.body)).bind replacements.get with
    | some name => parseFileLine (trim line'.body) = some name
    | none => line'.body = line.body

def FileRenamed (replacements : FileReplacements) (file file' : Option Str) : Prop :=
  file' = file ∨ ∃ reference name, file = some reference ∧ replacements.get reference = some name ∧ file' = some name

structure TrackRenamed (replacements : FileReplacements) (track track' : CueTrack) : Prop where
  same : track' = { track with file := track'.file }
  file : FileRenamed replacements track.file track'.file

/-- A sheet that differs from another one in the mapped names only. -/
structure SheetRenamed (replacements : FileReplacements) (sheet sheet' : CueSheet) : Prop where
  same : sheet' = { sheet with tracks := sheet'.tracks }
  tracks : List.Forall₂ (TrackRenamed replacements) sheet.tracks sheet'.tracks

/-- The rewriting is exact: line by line, and for `parse_cue`. -/
structure ExactReplacement (replacements : FileReplacements) (text result : Str) : Prop where
  lines : List.Forall₂ (LineReplaced replacements) (splitCueLinesPreservingEol text) (splitCueLinesPreservingEol result)
  sheet : SheetRenamed replacements (parseCue text) (parseCue result)

/-! ## Lines that are put together again -/

/-- A line with its ending. -/
structure CueTextLine.Closed (line : CueTextLine) : Prop where
  body : '\n' ∉ line.body
  eol : (line.eol = ['\n'] ∧ line.body.getLast? ≠ some '\r') ∨ line.eol = ['\r', '\n']

/-- Only the last line can be without an ending, and it is not empty. -/
inductive WellSplit : List CueTextLine → Prop where
  | nil : WellSplit []
  | last {body : Str} (hne : body ≠ []) (hbody : '\n' ∉ body) : WellSplit [⟨body, []⟩]
  | cons {line : CueTextLine} {ls : List CueTextLine} (hline : line.Closed) (hls : WellSplit ls) : WellSplit (line :: ls)

theorem wellSplit_loop {line : Str} (h : '\n' ∉ line) (rest : Str) : WellSplit (splitCueLinesLoop line rest) := by
  induction rest generalizing line with
  | nil =>
    unfold splitCueLinesLoop
    split
    · exact .nil
    · rename_i hne
      exact .last (by simpa using hne) h
  | cons c rest ih =>
    unfold splitCueLinesLoop
    by_cases hc : c = '\n'
    · rw [if_pos hc]
      refine .cons ?_ (ih List.not_mem_nil)
      split
      · exact ⟨fun hmem => h (List.dropLast_subset _ hmem), .inr rfl⟩
      · rename_i hcr
        exact ⟨h, .inl ⟨rfl, hcr⟩⟩
    · rw [if_neg hc]
      exact ih (by simp [h, Ne.symm hc])

theorem wellSplit_split (text : Str) : WellSplit (splitCueLinesPreservingEol text) := wellSplit_loop List.not_mem_nil text

theorem splitCueLinesLoop_append {body : Str} (h : '\n' ∉ body) (line rest : Str) :
    splitCueLinesLoop line (body ++ rest) = splitCueLinesLoop (line ++ body) rest := by
  induction body generalizing line with
  | nil => simp
  | cons c body ih =>
    rw [List.mem_cons, not_or] at h
    rw [List.cons_append, splitCueLinesLoop, if_neg (Ne.symm h.1), ih h.2, List.append_assoc]
    rfl

/-- **Lines are found again** in the text they are put together to. -/
theorem splitCueLines_text {ls : List CueTextLine} (h : WellSplit ls) :
    splitCueLinesPreservingEol (ls.flatMap CueTextLine.text) = ls := by
  induction h with
  | nil => rfl
  | last hne hbody =>
    rename_i body
    have hloop := splitCueLinesLoop_append hbody [] []
    rw [List.append_nil] at hloop
    simp only [List.flatMap_cons, List.flatMap_nil, CueTextLine.text, List.append_nil, splitCueLinesPreservingEol, hloop,
      List.nil_append, splitCueLinesLoop, if_neg (show ¬ body.isEmpty = true by simpa using hne)]
  | cons hline hls ih =>
    rename_i line ls
    obtain ⟨body, eol⟩ := line
    obtain ⟨hbody, ⟨heol, hlast⟩ | heol⟩ := hline
    · cases heol
      rw [List.flatMap_cons, splitCueLinesPreservingEol, CueTextLine.text, List.append_assoc,
        splitCueLinesLoop_append hbody, List.nil_append, List.singleton_append, splitCueLinesLoop, if_pos rfl, if_neg hlast,
        ← splitCueLinesPreservingEol, ih]
    · cases heol
      have hcr : '\n' ∉ body ++ ['\r'] := by simpa using hbody
      rw [List.flatMap_cons, splitCueLinesPreservingEol, CueTextLine.text, List.append_assoc,
        show body ++ (['\r', '\n'] ++ ls.flatMap CueTextLine.text) = (body ++ ['\r']) ++ '\n' :: ls.flatMap CueTextLine.text by simp,
        splitCueLinesLoop_append hcr, List.nil_append, splitCueLinesLoop, if_pos rfl,
        if_pos List.getLast?_concat, List.dropLast_concat, ← splitCueLinesPreservingEol, ih]

section Rewriting

variable {replacements : FileReplacements}

theorem mem_of_get {reference name : Str} (h : replacements.get reference = some name) : ∃ entry ∈ replacements.entries, entry.2 = name := by
  unfold FileReplacements.get at h
  obtain ⟨l₁, l₂, heq, -⟩ := List.lookup_eq_some_iff.1 h
  exact ⟨(reference, name), by rw [heq]; simp, rfl⟩

/-- What the check lets pass. -/
structure Accepted (replacements : FileReplacements) : Prop where
  representable : ∀ entry ∈ replacements.entries, unrepresentable entry.2 = false

theorem Accepted.notMem (h : Accepted replacements) {reference name : Str} (hget : replacements.get reference = some name) :
    '\r' ∉ name ∧ '\n' ∉ name ∧ '"' ∉ name := by
  obtain ⟨entry, hentry, rfl⟩ := mem_of_get hget
  have hany := h.representable entry hentry
  unfold unrepresentable at hany
  rw [List.any_eq_false] at hany
  refine ⟨fun hmem => hany _ hmem rfl, fun hmem => hany _ hmem rfl, fun hmem => hany _ hmem rfl⟩

/-- What one line becomes. -/
theorem rewriteLine_cases (line : CueTextLine) :
    (replacements.rewriteLine line = line ∧ (parseFileLine (trim line.body)).bind replacements.get = none) ∨
      ∃ reference name start stop, cueFileReferenceSpan line.body = some (reference, start, stop) ∧
        replacements.get reference = some name ∧ (parseFileLine (trim line.body)).bind replacements.get = some name ∧
        replacements.rewriteLine line = { line with body := replaceReference line.body name start stop } := by
  unfold FileReplacements.rewriteLine
  rw [parseFileLine_trim]
  cases hspan : cueFileReferenceSpan line.body with
  | none => exact .inl ⟨rfl, rfl⟩
  | some found =>
    obtain ⟨reference, start, stop⟩ := found
    cases hget : replacements.get reference with
    | none => exact .inl ⟨by simp [hget], by simpa using hget⟩
    | some name => exact .inr ⟨reference, name, start, stop, rfl, hget, by simpa using hget, by simp [hget]⟩

theorem getLast_replaceReference {line reference name : Str} {start stop : ℕ}
    (h : cueFileReferenceSpan line = some (reference, start, stop)) :
    (replaceReference line name start stop).getLast? = line.getLast? ∧ line.drop stop ≠ [] ∧
      (∀ c ∈ replaceReference line name start stop, c ∈ line ∨ c ∈ name) := by
  obtain ⟨front, rest, offset, hfront, rfl, hrest, hne, href, rfl, rfl⟩ := exists_front h
  have htail : rest.drop (offset + reference.length) ≠ [] := by
    by_cases hquote : rest.head? = some '"'
    · obtain ⟨more, rfl⟩ : ∃ more, rest = '"' :: more := by
        cases rest with
        | nil => cases hquote
        | cons c more => exact ⟨more, by rw [Option.some.inj hquote]⟩
      rw [referenceIn_quote] at href
      split at href
      case isFalse => cases href
      rename_i hclosed
      obtain ⟨inner, tail, rfl, hinner⟩ := List.eq_append_cons_of_mem hclosed
      rw [takeWhile_quote hinner] at href
      cases href
      rw [Nat.add_comm, List.drop_succ_cons, List.drop_left]
      exact List.cons_ne_nil _ _
    · obtain ⟨rfl, -, -, sep, type, trail, hunquoted⟩ := unquoted_of_referenceIn hquote href
      rw [hunquoted.eq, Nat.zero_add, List.drop_left]
      exact fun hnil => hunquoted.sep_ne (List.append_eq_nil_iff.1 hnil).1
  have hdrop : (front ++ rest).drop (front.length + offset + reference.length) = rest.drop (offset + reference.length) := by
    rw [Nat.add_assoc, List.drop_length_add_append]
  refine ⟨?_, by rwa [hdrop], fun c hc => ?_⟩
  · have hline := List.take_append_drop (front.length + offset + reference.length) (front ++ rest)
    rw [hdrop] at hline
    have hlast : (front ++ rest).getLast? = (rest.drop (offset + reference.length)).getLast? := by
      rw [← hline, List.getLast?_append_of_ne_nil _ htail]
    unfold replaceReference
    rw [hdrop, hlast, List.getLast?_append_of_ne_nil _ htail]
  · unfold replaceReference at hc
    rcases List.mem_append.1 hc with hc | hc
    · rcases List.mem_append.1 hc with hc | hc
      · exact .inl (List.mem_of_mem_take hc)
      · exact .inr hc
    · exact .inl (List.mem_of_mem_drop hc)

/-- The rewriting keeps lines lines. -/
theorem wellSplit_rewrite (haccepted : Accepted replacements) {ls : List CueTextLine} (h : WellSplit ls) :
    WellSplit (ls.map replacements.rewriteLine) := by
  have hbody : ∀ line : CueTextLine, '\n' ∉ line.body → '\n' ∉ (replacements.rewriteLine line).body ∧
      (replacements.rewriteLine line).eol = line.eol ∧
      (replacements.rewriteLine line).body.getLast? = line.body.getLast? := by
    intro line hline
    rcases @rewriteLine_cases replacements line with ⟨heq, -⟩ | ⟨reference, name, start, stop, hspan, hget, -, heq⟩
    · rw [heq]
      exact ⟨hline, rfl, rfl⟩
    · obtain ⟨hlast, -, hmem⟩ := @getLast_replaceReference line.body reference name start stop hspan
      rw [heq]
      exact ⟨fun hlf => (hmem _ hlf).elim hline (haccepted.notMem hget).2.1, rfl, hlast⟩
  induction h with
  | nil => exact .nil
  | last hne hlf =>
    rename_i body
    obtain ⟨hlf', heol, hlast⟩ := hbody ⟨body, []⟩ hlf
    have hne' : (replacements.rewriteLine ⟨body, []⟩).body ≠ [] := by
      intro hnil
      rw [hnil, List.getLast?_nil] at hlast
      exact hne (List.getLast?_eq_none_iff.1 hlast.symm)
    have heq : replacements.rewriteLine ⟨body, []⟩ = ⟨(replacements.rewriteLine ⟨body, []⟩).body, []⟩ :=
      congrArg (CueTextLine.mk _) heol
    rw [List.map_singleton, heq]
    exact .last hne' hlf'
  | cons hline hls ih =>
    rename_i line ls
    obtain ⟨hlf, heol, hlast⟩ := hbody line hline.body
    exact .cons ⟨hlf, by rw [heol, hlast]; exact hline.eol⟩ ih

/-! ## The sheet -/

theorem FileFront.head {front : Str} (h : FileFront front) (rest : Str) : (front ++ rest).head? ≠ some byteOrderMark := by
  obtain ⟨blank, word, gap, rfl, hblank, hword, -, -⟩ := h.shape
  cases blank with
  | nil =>
    obtain ⟨c, more, rfl⟩ := List.exists_cons_of_ne_nil (hword.ne_nil keyword_file)
    have hc := hword.isAlpha keyword_file c List.mem_cons_self
    rintro heq
    rw [show c = byteOrderMark from Option.some.inj heq] at hc
    exact absurd hc (by decide)
  | cons c blank =>
    have hc := hblank c List.mem_cons_self
    rintro heq
    rw [show c = byteOrderMark from Option.some.inj heq] at hc
    exact absurd hc (by decide)

theorem trimmedLine_of_head {line : Str} (h : line.head? ≠ some byteOrderMark) (i : ℕ) : trimmedLine (line, i) = trim line := by
  unfold trimmedLine
  dsimp only
  split
  · cases line with
    | nil => rfl
    | cons c line => rw [List.dropWhile_cons_of_neg (by simpa using h)]
  · rfl

/-- A FILE line is no record of the Tonepoet block. -/
theorem FileFront.parseMetadataLine {front : Str} (h : FileFront front) (rest : Str) : parseMetadataLine (front ++ rest) = none := by
  obtain ⟨gap, -, hstrip⟩ := h.strip rest
  unfold Cue.parseMetadataLine metadataPayload
  rw [stripKeywordCi_other hstrip (by decide)]
  rfl

/-- Two lines that `parse_cue` may read in each other's place. -/
def LineRead (replacements : FileReplacements) (line line' : Str) : Prop :=
  line' = line ∨ ∃ reference name, parseFileLine line = some reference ∧ replacements.get reference = some name ∧
    parseFileLine line' = some name

/-- What both readers of a sheet see in a rewritten line. -/
theorem rewriteLine_read (haccepted : Accepted replacements) {line : CueTextLine}
    (hgood : ∀ reference name, parseFileLine (trim line.body) = some reference → replacements.get reference = some name →
      Representable line.body name) (i : ℕ) :
    LineRead replacements (trimmedLine (line.body, i)) (trimmedLine ((replacements.rewriteLine line).body, i)) ∧
      (parseMetadataLine (replacements.rewriteLine line).body = parseMetadataLine line.body) := by
  rcases @rewriteLine_cases replacements line with ⟨heq, -⟩ | ⟨reference, name, start, stop, hspan, hget, -, heq⟩
  · rw [heq]
    exact ⟨.inl rfl, rfl⟩
  · have hparse : parseFileLine (trim line.body) = some reference := by
      rw [parseFileLine_trim, hspan]
      rfl
    have hread := (parse_replaceReference hspan (haccepted.notMem hget).2.2).2 (hgood reference name hparse hget)
    obtain ⟨front, rest, offset, hfront, hline, -, -, -, rfl, rfl⟩ := exists_front hspan
    have hnew : replaceReference line.body name (front.length + offset) (front.length + offset + reference.length) =
        front ++ (rest.take offset ++ (name ++ rest.drop (offset + reference.length))) := by
      unfold replaceReference
      rw [hline, List.take_length_add_append, Nat.add_assoc, List.drop_length_add_append]
      simp
    rw [heq]
    dsimp only
    constructor
    · right
      refine ⟨reference, name, ?_, hget, ?_⟩
      · rw [trimmedLine_of_head (hline ▸ hfront.head rest)]
        exact hparse
      · rw [trimmedLine_of_head (hnew ▸ hfront.head _)]
        exact hread
    · rw [hnew, hline, hfront.parseMetadataLine, hfront.parseMetadataLine]

/-! ### Tracks and sheets -/

theorem TrackRenamed.refl (track : CueTrack) : TrackRenamed replacements track track := ⟨rfl, .inl rfl⟩

/-- A change that neither reads nor writes the file. -/
theorem TrackRenamed.map {f : CueTrack → CueTrack} (hf : ∀ track file, f { track with file := file } = { f track with file := file })
    {track track' : CueTrack} (h : TrackRenamed replacements track track') : TrackRenamed replacements (f track) (f track') := by
  have hself : ∀ track : CueTrack, (f track).file = track.file := fun track => by
    have hfile : (f track).file = ({ f track with file := track.file } : CueTrack).file :=
      congrArg CueTrack.file (hf track track.file)
    exact hfile
  have hsame : f track' = { f track with file := track'.file } := by rw [h.same, hf]
  exact ⟨by rw [hsame], by rw [hself, hself]; exact h.file⟩

theorem readLine_file (trimmed : Str) (track : CueTrack) (file : Option Str) :
    ({ track with file := file } : CueTrack).readLine trimmed = { track.readLine trimmed with file := file } := by
  unfold CueTrack.readLine
  split
  · rfl
  split
  · rfl
  split
  · rfl
  split
  · rfl
  have hpush : ({ track with file := file } : CueTrack).pushDirective trimmed = { track.pushDirective trimmed with file := file } := by
    unfold CueTrack.pushDirective
    split
    · rfl
    split
    · rfl
    · rfl
  cases (stripKeywordCi trimmed isrcKeyword).map trim with
  | none => exact hpush
  | some val =>
    simp only [Option.elim_some]
    split
    · exact hpush
    · rfl

theorem rebind_renamed {track track' : CueTrack} (h : TrackRenamed replacements track track') {file file' : Str}
    (hfile : FileRenamed replacements (some file) (some file')) :
    TrackRenamed replacements (track.rebind file) (track'.rebind file') := by
  have hindex : track'.index01Frames = track.index01Frames := by rw [h.same]
  unfold CueTrack.rebind
  rw [hindex]
  split
  · exact ⟨by rw [h.same], hfile⟩
  · exact h

theorem optionRel_cases {α : Type} {R : α → α → Prop} {a b : Option α} (h : Option.Rel R a b) :
    (a = none ∧ b = none) ∨ ∃ x y, a = some x ∧ b = some y ∧ R x y := by
  cases h with
  | none => exact .inl ⟨rfl, rfl⟩
  | some hxy => exact .inr ⟨_, _, rfl, rfl, hxy⟩

/-- The states of `parse_cue` on both texts. -/
structure StateRenamed (replacements : FileReplacements) (s s' : ParseState) : Prop where
  sheet : SheetRenamed replacements s.sheet s'.sheet
  track : Option.Rel (TrackRenamed replacements) s.currentTrack s'.currentTrack
  ignored : s'.ignoredTrackBlock = s.ignoredTrackBlock
  file : FileRenamed replacements s.currentFile s'.currentFile

theorem StateRenamed.commit {s s' : ParseState} (h : StateRenamed replacements s s') :
    SheetRenamed replacements s.commit s'.commit := by
  refine ⟨?_, ?_⟩
  · unfold ParseState.commit
    rw [h.sheet.same]
  · refine List.rel_append h.sheet.tracks ?_
    rcases optionRel_cases h.track with ⟨hs, hs'⟩ | ⟨track, track', hs, hs', htrack⟩
    · rw [hs, hs']
      exact .nil
    · rw [hs, hs']
      exact .cons htrack .nil

theorem SheetRenamed.readLine {sheet sheet' : CueSheet} (h : SheetRenamed replacements sheet sheet') (trimmed : Str) :
    SheetRenamed replacements (sheet.readLine trimmed) (sheet'.readLine trimmed) := by
  have htracks : ∀ sheet : CueSheet, ∀ tracks, ({ sheet with tracks := tracks } : CueSheet).readLine trimmed =
      { sheet.readLine trimmed with tracks := tracks } := by
    intro sheet tracks
    unfold CueSheet.readLine
    split
    · rfl
    split
    · rfl
    split
    · rfl
    split
    · rfl
    cases (stripKeywordCi trimmed catalogKeyword).map trim with
    | none => rfl
    | some val =>
      simp only [Option.elim_some]
      split
      · rfl
      · rfl
  have hself : ∀ sheet : CueSheet, (sheet.readLine trimmed).tracks = sheet.tracks := fun sheet => by
    have htracks' : (sheet.readLine trimmed).tracks = ({ sheet.readLine trimmed with tracks := sheet.tracks } : CueSheet).tracks :=
      congrArg CueSheet.tracks (htracks sheet sheet.tracks)
    exact htracks'
  have hsame : sheet'.readLine trimmed = { sheet.readLine trimmed with tracks := sheet'.tracks } := by rw [h.same, htracks]
  exact ⟨by rw [hsame], by rw [hself, hself]; exact h.tracks⟩

/-- **One line of `parse_cue`.** -/
theorem StateRenamed.step {s s' : ParseState} (h : StateRenamed replacements s s') {line line' : Str}
    (hline : LineRead replacements line line') : StateRenamed replacements (s.step line) (s'.step line') := by
  have hfile : ∀ file file', parseFileLine line = some file → parseFileLine line' = some file' →
      FileRenamed replacements (some file) (some file') → StateRenamed replacements (s.step line) (s'.step line') := by
    intro file file' hparse hparse' hrenamed
    unfold ParseState.step
    rw [hparse, hparse']
    refine ⟨h.sheet, ?_, rfl, hrenamed⟩
    rcases optionRel_cases h.track with ⟨hs, hs'⟩ | ⟨track, track', hs, hs', htrack⟩
    · rw [hs, hs']
      exact .none
    · rw [hs, hs']
      exact .some (rebind_renamed htrack hrenamed)
  rcases hline with rfl | ⟨reference, name, hparse, hget, hparse'⟩
  · cases hparse : parseFileLine line' with
    | some file => exact hfile file file hparse hparse (.inl rfl)
    | none =>
      unfold ParseState.step
      rw [hparse]
      cases hheader : parseTrackHeader line' with
      | some header =>
        obtain ⟨number, isAudio⟩ := header
        cases isAudio with
        | false => exact ⟨h.commit, .none, rfl, h.file⟩
        | true => exact ⟨h.commit, .some ⟨rfl, h.file⟩, rfl, h.file⟩
      | none =>
        dsimp only
        rw [h.ignored]
        split
        · exact h
        · rcases optionRel_cases h.track with ⟨hs, hs'⟩ | ⟨track, track', hs, hs', htrack⟩
          · rw [hs, hs']
            exact ⟨h.sheet.readLine line', .none, rfl, h.file⟩
          · rw [hs, hs']
            have hread := htrack.map (f := fun track => track.readLine line') (readLine_file line')
            exact ⟨h.sheet, .some hread, rfl, h.file⟩
  · exact hfile reference name hparse hparse' (.inr ⟨reference, name, rfl, hget, rfl⟩)

theorem foldl_step_renamed {ls : List CueTextLine} {f : CueTextLine → CueTextLine}
    (hf : ∀ line ∈ ls, ∀ i, LineRead replacements (trimmedLine (line.body, i)) (trimmedLine ((f line).body, i))) :
    ∀ (i : ℕ) {s s' : ParseState}, StateRenamed replacements s s' → StateRenamed replacements
      (((ls.map CueTextLine.body).zipIdx i).foldl (fun s line => s.step (trimmedLine line)) s)
      ((((ls.map f).map CueTextLine.body).zipIdx i).foldl (fun s line => s.step (trimmedLine line)) s') := by
  induction ls with
  | nil => exact fun _ _ _ h => h
  | cons line ls ih =>
    intro i s s' h
    simp only [List.map_cons, List.zipIdx_cons, List.foldl_cons]
    exact ih (fun line' hline' => hf line' (List.mem_cons_of_mem _ hline')) (i + 1) (h.step (hf line List.mem_cons_self i))

theorem forall₂_modify {α : Type} {R : α → α → Prop} {f : α → α} (hf : ∀ a b, R a b → R (f a) (f b)) {l l' : List α}
    (h : List.Forall₂ R l l') : ∀ i, List.Forall₂ R (l.modify i f) (l'.modify i f) := by
  induction h with
  | nil =>
    intro i
    simp
  | cons hab hl ih =>
    intro i
    cases i with
    | zero => exact .cons (hf _ _ hab) hl
    | succ i => exact .cons hab (ih i)

theorem SheetRenamed.overlay {sheet sheet' : CueSheet} (h : SheetRenamed replacements sheet sheet')
    (metadata : ParsedTonepoetMetadata) : SheetRenamed replacements (sheet.overlay metadata) (sheet'.overlay metadata) := by
  have hmodify : ∀ (entries : List (ℕ × CueUserMetadata)) {ts ts' : List CueTrack},
      List.Forall₂ (TrackRenamed replacements) ts ts' →
      List.Forall₂ (TrackRenamed replacements)
        (entries.foldl (fun tracks entry => if entry.1 = 0 then tracks
          else tracks.modify (entry.1 - 1) fun track => { track with userMetadata := entry.2 }) ts)
        (entries.foldl (fun tracks entry => if entry.1 = 0 then tracks
          else tracks.modify (entry.1 - 1) fun track => { track with userMetadata := entry.2 }) ts') := by
    intro entries
    induction entries with
    | nil => exact fun h => h
    | cons entry entries ih =>
      intro ts ts' hts
      apply ih
      dsimp only
      split
      · exact hts
      · refine forall₂_modify (fun _ _ hab => ?_) hts _
        exact hab.map (f := fun track => { track with userMetadata := entry.2 }) fun _ _ => rfl
  have hmap := hmodify metadata.tracks.entries h.tracks
  refine ⟨?_, ?_⟩
  · unfold CueSheet.overlay
    rw [h.same]
  · unfold CueSheet.overlay
    exact List.forall₂_map_left_iff.2 (List.forall₂_map_right_iff.2 (hmap.imp fun _ _ hab => hab.map (f := CueTrack.overlay) fun _ _ => rfl))

theorem SheetRenamed.inheritPerformer {sheet sheet' : CueSheet} (h : SheetRenamed replacements sheet sheet') :
    SheetRenamed replacements sheet.inheritPerformer sheet'.inheritPerformer := by
  have hperformer : sheet'.performer = sheet.performer := by rw [h.same]
  unfold CueSheet.inheritPerformer
  rw [hperformer]
  split
  · rename_i albumPerformer _
    refine ⟨by rw [h.same], List.forall₂_map_left_iff.2 (List.forall₂_map_right_iff.2 (h.tracks.imp fun _ _ hab => ?_))⟩
    exact hab.map (f := fun track => { track with performer := track.performer.or (some albumPerformer) }) fun _ _ => rfl
  · exact h

/-- **The sheet of the rewritten lines.** -/
theorem parseCue_rewrite (haccepted : Accepted replacements) {text : Str}
    (hgood : ∀ line ∈ splitCueLinesPreservingEol text, ∀ reference name, parseFileLine (trim line.body) = some reference →
      replacements.get reference = some name → Representable line.body name) :
    SheetRenamed replacements (parseCue text)
      (parseCue (((splitCueLinesPreservingEol text).map replacements.rewriteLine).flatMap CueTextLine.text)) := by
  have hsplit := splitCueLines_text (wellSplit_rewrite haccepted (wellSplit_split text))
  have hlines := bodies_splitCueLines
    (((splitCueLinesPreservingEol text).map replacements.rewriteLine).flatMap CueTextLine.text)
  have hbodies : lines (((splitCueLinesPreservingEol text).map replacements.rewriteLine).flatMap CueTextLine.text) =
      ((splitCueLinesPreservingEol text).map replacements.rewriteLine).map CueTextLine.body := by
    rw [← hlines]
    exact congrArg (List.map CueTextLine.body) hsplit
  have hmetadata : parseTonepoetMetadata (((splitCueLinesPreservingEol text).map replacements.rewriteLine).flatMap CueTextLine.text) =
      parseTonepoetMetadata text := by
    unfold parseTonepoetMetadata
    rw [hbodies, ← bodies_splitCueLines text, List.map_map, List.foldl_map, List.foldl_map]
    congr 1
    apply List.foldl_ext
    intro state line hline
    unfold metadataStep
    rw [Function.comp_apply, (rewriteLine_read haccepted (hgood line hline) 0).2]
  unfold parseCue parseCueUninherited parseCueLines
  rw [hmetadata, hbodies, ← bodies_splitCueLines text]
  refine ((StateRenamed.commit ?_).overlay _).inheritPerformer
  refine foldl_step_renamed (fun line hline i => (rewriteLine_read haccepted (hgood line hline) i).1) 0 ?_
  exact ⟨⟨rfl, .nil⟩, .none, rfl, .inl rfl⟩

end Rewriting

/-! ## Exactness -/

/-- **The rewriting is exact exactly where the names are representable**: with names that pass its check it returns a
text; that text is the sheet with the mapped names if and only if no mapped reference without quotes gets a name
that is empty or has whitespace around it. -/
theorem composeCueFileReferenceReplacement_exact (text : Str) (replacements : FileReplacements)
    (haccepted : ∀ entry ∈ replacements.entries, unrepresentable entry.2 = false) :
    ∃ result, composeCueFileReferenceReplacement text replacements = .ok result ∧
      (ExactReplacement replacements text result ↔
        ∀ line ∈ splitCueLinesPreservingEol text, ∀ reference name, parseFileLine (trim line.body) = some reference →
          replacements.get reference = some name → Representable line.body name) := by
  have hnone : ∀ line : CueTextLine, (parseFileLine (trim line.body)).bind replacements.get = none →
      LineReplaced replacements line line := by
    intro line hline
    exact ⟨rfl, by rw [hline]⟩
  by_cases hempty : replacements.entries.isEmpty
  · have hget : ∀ reference, replacements.get reference = none := by
      intro reference
      unfold FileReplacements.get
      rw [List.isEmpty_iff.1 hempty]
      rfl
    refine ⟨text, by rw [composeCueFileReferenceReplacement, if_pos hempty], iff_of_true ?_ ?_⟩
    · refine ⟨List.forall₂_same.2 fun line _ => hnone line ?_, ⟨rfl, List.forall₂_same.2 fun track _ => .refl track⟩⟩
      cases parseFileLine (trim line.body) with
      | none => rfl
      | some reference => exact hget reference
    · intro line _ reference name _ hname
      rw [hget] at hname
      cases hname
  · have haccepted' : Accepted replacements := ⟨haccepted⟩
    have hfind : (replacements.entries.map Prod.snd).find? unrepresentable = none := by
      rw [List.find?_eq_none]
      intro name hname
      obtain ⟨entry, hentry, rfl⟩ := List.mem_map.1 hname
      rw [haccepted entry hentry]
      exact Bool.false_ne_true
    have hsplit := splitCueLines_text (wellSplit_rewrite haccepted' (wellSplit_split text))
    refine ⟨_, by rw [composeCueFileReferenceReplacement, if_neg hempty, hfind], ?_⟩
    constructor
    · intro hexact line hline reference name hparse hget
      have hlines := hexact.lines
      rw [hsplit, List.forall₂_map_right_iff, List.forall₂_same] at hlines
      have hbody := (hlines line hline).body
      rcases @rewriteLine_cases replacements line with ⟨-, hplain⟩ | ⟨reference', name', start, stop, hspan, hget', -, heq⟩
      · rw [hparse, Option.bind_some, hget] at hplain
        cases hplain
      · rw [hparse, Option.bind_some, hget, heq] at hbody
        have hname : name' = name := by
          rw [parseFileLine_trim, hspan] at hparse
          cases hparse
          rw [hget] at hget'
          exact (Option.some.inj hget').symm
        subst hname
        exact (parse_replaceReference hspan (haccepted'.notMem hget).2.2).1 hbody
    · intro hgood
      refine ⟨?_, parseCue_rewrite haccepted' hgood⟩
      rw [hsplit, List.forall₂_map_right_iff, List.forall₂_same]
      intro line hline
      rcases @rewriteLine_cases replacements line with ⟨heq, hplain⟩ | ⟨reference, name, start, stop, hspan, hget, hbind, heq⟩
      · rw [heq]
        exact hnone line hplain
      · have hparse : parseFileLine (trim line.body) = some reference := by
          rw [parseFileLine_trim, hspan]
          rfl
        have hread := (parse_replaceReference hspan (haccepted'.notMem hget).2.2).2 (hgood line hline reference name hparse hget)
        rw [heq]
        exact ⟨rfl, by rw [hbind]; exact hread⟩

def sampleReplacements (name : Str) : FileReplacements := ⟨[("a.wav".toList, name)], List.pairwise_singleton _ _⟩

/-- In quotes a name keeps the space it ends with. -/
theorem composeCueFileReferenceReplacement_quoted :
    ∃ result, composeCueFileReferenceReplacement "FILE \"a.wav\" WAVE\n".toList (sampleReplacements "b.wav ".toList) = .ok result ∧
      ExactReplacement (sampleReplacements "b.wav ".toList) "FILE \"a.wav\" WAVE\n".toList result := by
  obtain ⟨result, hresult, hexact⟩ := composeCueFileReferenceReplacement_exact "FILE \"a.wav\" WAVE\n".toList
    (sampleReplacements "b.wav ".toList) (by decide)
  refine ⟨result, hresult, hexact.2 fun line hline reference name _ _ => .inl ?_⟩
  have hquoted : ∀ line ∈ splitCueLinesPreservingEol "FILE \"a.wav\" WAVE\n".toList, quotedReference line.body = true := by decide
  exact hquoted line hline

/-- **A name that passes the check is not read back**: `FILE a.wav WAVE` with a name that ends in a space. -/
theorem composeCueFileReferenceReplacement_inexact :
    ¬ ∀ text replacements, (∀ entry ∈ replacements.entries, unrepresentable entry.2 = false) →
      ∃ result, composeCueFileReferenceReplacement text replacements = .ok result ∧ ExactReplacement replacements text result := by
  intro h
  obtain ⟨result, hresult, hexact⟩ := h "FILE a.wav WAVE\n".toList (sampleReplacements "b.wav ".toList) (by decide)
  have heval : composeCueFileReferenceReplacement "FILE a.wav WAVE\n".toList (sampleReplacements "b.wav ".toList) =
      .ok "FILE b.wav  WAVE\n".toList := by rfl
  rw [heval] at hresult
  cases hresult
  have hlines := hexact.lines
  have hsplit : splitCueLinesPreservingEol "FILE a.wav WAVE\n".toList = [⟨"FILE a.wav WAVE".toList, ['\n']⟩] := by rfl
  have hsplit' : splitCueLinesPreservingEol "FILE b.wav  WAVE\n".toList = [⟨"FILE b.wav  WAVE".toList, ['\n']⟩] := by rfl
  rw [hsplit, hsplit'] at hlines
  cases hlines with
  | cons hline _ =>
    have hread : parseFileLine (trim "FILE b.wav  WAVE".toList) = some "b.wav ".toList := hline.body
    exact absurd hread (by decide)

end Cue
