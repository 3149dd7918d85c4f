import Tonepoet.Cue.MetadataBlock

/-!
# The lines of a CUE sheet (cue_parser.rs:4802-5150)

Every scanner trims a line and asks the same small parsers what it says. `Directive` lists the metadata fields
with the value a line gives them; no line gives a value to two of them.
-/

namespace Cue

open Rust

/-- `str::split_whitespace`. -/
def splitWhitespace (s : Str) : List Str := (s.splitOnP isWhitespace).filter fun token => !token.isEmpty

/-- `str::parse::<u32>`. -/
def parseU32 (s : Str) : Option ℕ := (parseUsize s).filter (· < 2 ^ 32)

def fileKeyword : Str := ['F', 'I', 'L', 'E']
def trackKeyword : Str := ['T', 'R', 'A', 'C', 'K']
def audioMode : Str := ['A', 'U', 'D', 'I', 'O']
def titleKeyword : Str := ['T', 'I', 'T', 'L', 'E']
def performerKeyword : Str := ['P', 'E', 'R', 'F', 'O', 'R', 'M', 'E', 'R']
def songwriterKeyword : Str := ['S', 'O', 'N', 'G', 'W', 'R', 'I', 'T', 'E', 'R']
def dateField : Str := ['D', 'A', 'T', 'E']
def yearField : Str := ['Y', 'E', 'A', 'R']
def genreField : Str := ['G', 'E', 'N', 'R', 'E']
def catalogKeyword : Str := ['C', 'A', 'T', 'A', 'L', 'O', 'G']
def isrcKeyword : Str := ['I', 'S', 'R', 'C']
def indexKeyword : Str := ['I', 'N', 'D', 'E', 'X']
def flagsKeyword : Str := ['F', 'L', 'A', 'G', 'S']

/-- `extract_quoted` (cue_parser.rs:5068). -/
def extractQuoted : Str → Option Str
  | [] => none
  | open_ :: s =>
    if open_ ≠ '"' then none
    else if '"' ∈ s then some (s.takeWhile (· ≠ '"')) else none

/-- `parse_quoted_field` (cue_parser.rs:5062). -/
def parseQuotedField (line keyword : Str) : Option Str := do
  let rest ← stripKeywordCi line keyword
  extractQuoted (trimStart rest)

/-- `parse_plain_field` (cue_parser.rs:5075). -/
def parsePlainField (line keyword : Str) : Option Str := do
  let rest ← stripKeywordCi line keyword
  let value := trim rest
  if value.isEmpty then none else some value

/-- `parse_rem_field` (cue_parser.rs:5085). -/
def parseRemField (line field : Str) : Option Str := do
  let rest ← stripKeywordCi line remKeyword
  let rest ← stripKeywordCi (trimStart rest) field
  let rest := trimStart rest
  if rest.head? = some '"' then extractQuoted rest
  else
    let value := trim rest
    if value.isEmpty then none else some value

/-- `cue_rem_field_is_present` (cue_parser.rs:4053). -/
def remFieldIsPresent (line field : Str) : Bool :=
  (do
    let rest ← stripKeywordCi line remKeyword
    stripKeywordCi (trimStart rest) field).isSome

/-- `parse_file_line` (cue_parser.rs:4802). -/
def parseFileLine (line : Str) : Option Str := do
  let rest ← stripKeywordCi line fileKeyword
  let rest := trimStart rest
  if rest.head? = some '"' then extractQuoted rest
  else if !rest.any isWhitespace then none
  else
    let fileType := rest.rtakeWhile fun c => !isWhitespace c
    -- `rfind` finds the last whitespace, which belongs to the second part
    let split := rest.length - fileType.length - 1
    let filename := trimEnd (rest.take split)
    if filename.isEmpty || (trim (rest.drop split)).isEmpty then none else some filename

/-- `parse_track_header` (cue_parser.rs:4979): the number and whether the mode is `AUDIO`. -/
def parseTrackHeader (line : Str) : Option (ℕ × Bool) := do
  let rest ← stripKeywordCi line trackKeyword
  match splitWhitespace (trimStart rest) with
  | number :: mode :: _ => do
    let number ← parseU32 number
    return (number, eqIgnoreAsciiCase mode audioMode)
  | _ => none

/-- `parse_cue_timestamp` (cue_parser.rs:5137), `checked_` operations on `u32`. -/
def parseCueTimestamp (ts : Str) : Option ℕ :=
  match ts.splitOn ':' with
  | [mm, ss, ff] => do
    let mm ← parseU32 mm
    let ss ← parseU32 ss
    let ff ← parseU32 ff
    let fits := fun n : ℕ => if n < 2 ^ 32 then some n else none
    let minutes ← fits (mm * 60)
    let seconds ← fits (minutes + ss)
    let frames ← fits (seconds * 75)
    fits (frames + ff)
  | _ => none

/-- `parse_index_line` (cue_parser.rs:5119). -/
def parseIndexLine (line wantedIndex : Str) : Option ℕ := do
  let rest ← stripKeywordCi line indexKeyword
  match splitWhitespace (trimStart rest) with
  | index :: timestamp :: _ => if index ≠ wantedIndex then none else parseCueTimestamp timestamp
  | _ => none

/-! ## Keywords -/

theorem stripKeywordCi_take {line keyword rest : Str} (h : stripKeywordCi line keyword = some rest) :
    keyword.length ≤ line.length ∧ (line.take keyword.length).map Char.toLower = keyword.map Char.toLower := by
  unfold stripKeywordCi at h
  split at h
  · cases h
  · dsimp only at h
    split at h
    · cases h
    · rename_i hlen heq
      refine ⟨not_lt.1 hlen, ?_⟩
      simpa [eqIgnoreAsciiCase] using heq

/-- A line starts with one keyword only, if neither continues the other. -/
theorem stripKeywordCi_unique {line k₁ k₂ r₁ r₂ : Str} (h₁ : stripKeywordCi line k₁ = some r₁)
    (h₂ : stripKeywordCi line k₂ = some r₂) :
    (k₁.map Char.toLower).take (min k₁.length k₂.length) = (k₂.map Char.toLower).take (min k₁.length k₂.length) := by
  have ht₁ := (stripKeywordCi_take h₁).2
  have ht₂ := (stripKeywordCi_take h₂).2
  rw [← ht₁, ← ht₂, ← List.map_take, ← List.map_take, List.take_take, List.take_take]
  congr 2
  omega

/-- A line of one keyword is no line of another. -/
theorem stripKeywordCi_other {line k₁ k₂ r₁ : Str} (h₁ : stripKeywordCi line k₁ = some r₁)
    (hne : (k₁.map Char.toLower).take (min k₁.length k₂.length) ≠ (k₂.map Char.toLower).take (min k₁.length k₂.length)) :
    stripKeywordCi line k₂ = none := by
  cases h₂ : stripKeywordCi line k₂ with
  | none => rfl
  | some r₂ => exact absurd (stripKeywordCi_unique h₁ h₂) hne

/-! ## Directives -/

/-- The metadata fields of a scope. -/
inductive Directive where
  | title
  | performer
  | songwriter
  | date
  | genre
  | catalog
  | isrc
  deriving DecidableEq, Repr

namespace Directive

/-- The value a line gives to a field. -/
def value : Directive → Str → Option Str
  | title, line => parseQuotedField line titleKeyword
  | performer, line => parseQuotedField line performerKeyword
  | songwriter, line => parseQuotedField line songwriterKeyword
  | date, line => (parseRemField line dateField).or (parseRemField line yearField)
  | genre, line => parseRemField line genreField
  | catalog, line => parsePlainField line catalogKeyword
  | isrc, line => parsePlainField line isrcKeyword

/-- Whether a line is one of a field, with or without a value. -/
def present : Directive → Str → Bool
  | title, line => (parseQuotedField line titleKeyword).isSome
  | performer, line => (parseQuotedField line performerKeyword).isSome
  | songwriter, line => (parseQuotedField line songwriterKeyword).isSome
  | date, line => remFieldIsPresent line dateField || remFieldIsPresent line yearField
  | genre, line => remFieldIsPresent line genreField
  | catalog, line => (stripKeywordCi line catalogKeyword).isSome
  | isrc, line => (stripKeywordCi line isrcKeyword).isSome

def keyword : Directive → Str
  | title => titleKeyword
  | performer => performerKeyword
  | songwriter => songwriterKeyword
  | date => remKeyword
  | genre => remKeyword
  | catalog => catalogKeyword
  | isrc => isrcKeyword

theorem quoted_strip {line k : Str} (h : (parseQuotedField line k).isSome = true) : (stripKeywordCi line k).isSome = true := by
  unfold parseQuotedField at h
  cases hs : stripKeywordCi line k with
  | none => simp [hs] at h
  | some rest => rfl

theorem rem_strip {line field : Str} (h : remFieldIsPresent line field = true) : (stripKeywordCi line remKeyword).isSome = true := by
  unfold remFieldIsPresent at h
  cases hs : stripKeywordCi line remKeyword with
  | none => simp [hs] at h
  | some rest => rfl

theorem present_strip {d : Directive} {line : Str} (h : d.present line = true) : (stripKeywordCi line d.keyword).isSome = true := by
  cases d with
  | title => exact quoted_strip h
  | performer => exact quoted_strip h
  | songwriter => exact quoted_strip h
  | date =>
    rcases (Bool.or_eq_true _ _).mp h with h | h
    · exact rem_strip h
    · exact rem_strip h
  | genre => exact rem_strip h
  | catalog => exact h
  | isrc => exact h

/-- The two fields that `REM` lines can be of. -/
theorem not_present_genre {line : Str} (h : date.present line = true) : genre.present line = false := by
  obtain ⟨rest, hrest⟩ := Option.isSome_iff_exists.1 (present_strip h)
  have hrest' : stripKeywordCi line remKeyword = some rest := hrest
  simp only [present, remFieldIsPresent, hrest', Option.bind_eq_bind, Option.bind_some, Bool.or_eq_true,
    Option.isSome_iff_exists] at h ⊢
  have hother : stripKeywordCi (trimStart rest) genreField = none := by
    rcases h with ⟨r, hr⟩ | ⟨r, hr⟩
    · exact stripKeywordCi_other hr (by decide)
    · exact stripKeywordCi_other hr (by decide)
  rw [hother]
  rfl

theorem keyword_clash {d d' : Directive} (hne : d ≠ d') (hrem : ¬ (d.keyword = remKeyword ∧ d'.keyword = remKeyword)) :
    (d.keyword.map Char.toLower).take (min d.keyword.length d'.keyword.length) ≠
      (d'.keyword.map Char.toLower).take (min d.keyword.length d'.keyword.length) := by
  revert hne hrem
  cases d <;> cases d' <;> decide

/-- **A line is of one field.** -/
theorem present_unique {d d' : Directive} {line : Str} (h : d.present line = true) (h' : d'.present line = true) : d = d' := by
  by_contra hne
  obtain ⟨r, hr⟩ := Option.isSome_iff_exists.1 (present_strip h)
  obtain ⟨r', hr'⟩ := Option.isSome_iff_exists.1 (present_strip h')
  by_cases hrem : d.keyword = remKeyword ∧ d'.keyword = remKeyword
  · have hfields : (d = date ∧ d' = genre) ∨ (d = genre ∧ d' = date) := by
      revert hne hrem
      cases d <;> cases d' <;> decide
    rcases hfields with ⟨rfl, rfl⟩ | ⟨rfl, rfl⟩
    · rw [not_present_genre h] at h'
      cases h'
    · rw [not_present_genre h'] at h
      cases h
  · exact keyword_clash hne hrem (stripKeywordCi_unique hr hr')

theorem plain_strip {line k v : Str} (h : parsePlainField line k = some v) : (stripKeywordCi line k).isSome = true := by
  unfold parsePlainField at h
  cases hs : stripKeywordCi line k with
  | none => simp [hs] at h
  | some rest => rfl

theorem rem_present {line field v : Str} (h : parseRemField line field = some v) : remFieldIsPresent line field = true := by
  unfold parseRemField at h
  unfold remFieldIsPresent
  cases hs : stripKeywordCi line remKeyword with
  | none => simp [hs] at h
  | some rest =>
    cases hf : stripKeywordCi (trimStart rest) field with
    | none => simp [hs, hf] at h
    | some rest' => simp [hf]

/-- A line with a value is a line of the field. -/
theorem present_of_value {d : Directive} {line v : Str} (h : d.value line = some v) : d.present line = true := by
  cases d with
  | title => exact Option.isSome_iff_exists.2 ⟨v, h⟩
  | performer => exact Option.isSome_iff_exists.2 ⟨v, h⟩
  | songwriter => exact Option.isSome_iff_exists.2 ⟨v, h⟩
  | date =>
    rcases Option.or_eq_some_iff.1 h with h | ⟨-, h⟩
    · exact (Bool.or_eq_true _ _).mpr (.inl (rem_present h))
    · exact (Bool.or_eq_true _ _).mpr (.inr (rem_present h))
  | genre => exact rem_present h
  | catalog => exact plain_strip h
  | isrc => exact plain_strip h

theorem value_of_not_present {d : Directive} {line : Str} (h : d.present line = false) : d.value line = none := by
  cases hv : d.value line with
  | none => rfl
  | some v =>
    rw [present_of_value hv] at h
    cases h

/-- What a line of one field gives to the others. -/
theorem value_other {d d' : Directive} {line : Str} (h : d.present line = true) (hne : d' ≠ d) : d'.value line = none := by
  cases hv : d'.value line with
  | none => rfl
  | some v => exact absurd (present_unique (present_of_value hv) h) hne

end Directive

/-- A FILE line is of no field and is no TRACK line. -/
theorem file_line_plain {line file : Str} (h : parseFileLine line = some file) :
    parseTrackHeader line = none ∧ ∀ d : Directive, d.present line = false := by
  unfold parseFileLine at h
  obtain ⟨rest, hrest, -⟩ := Option.bind_eq_some_iff.1 h
  constructor
  · unfold parseTrackHeader
    rw [stripKeywordCi_other hrest (by decide)]
    rfl
  · intro d
    rw [Bool.eq_false_iff]
    intro hd
    have hnone : stripKeywordCi line d.keyword = none := stripKeywordCi_other hrest (by cases d <;> decide)
    have hsome := Directive.present_strip hd
    rw [hnone] at hsome
    cases hsome

end Cue
