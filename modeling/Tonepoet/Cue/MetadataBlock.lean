import Mathlib.Data.Char
import Mathlib.Data.List.Lex
import Tonepoet.Library.OrderedMap
import Tonepoet.Text

/-!
# The Tonepoet metadata block (cue_parser.rs:112-415)

Metadata that a CUE sheet cannot express is kept in `REM TONEPOET_META_V1` records between a `BEGIN` and an
`END` record. Keys and values stand as they are where the reader gets them back so, and in quotes with
C-style escapes otherwise.
-/

namespace Cue

open Rust

/-- `BTreeMap<String, Vec<String>>`. -/
abbrev CueUserMetadata := OrderedMap.Map Str (List Str)

def remKeyword : Str := ['R', 'E', 'M']
def beginKeyword : Str := ['B', 'E', 'G', 'I', 'N']
def endKeyword : Str := ['E', 'N', 'D']
def tonepoetMetadataNamespace : Str := ['T', 'O', 'N', 'E', 'P', 'O', 'E', 'T', '_', 'M', 'E', 'T', 'A', '_', 'V', '1']

structure ParsedTonepoetMetadata where
  present : Bool
  album : CueUserMetadata
  /-- By the 1-based ordinal of the track. -/
  tracks : OrderedMap.Map ℕ CueUserMetadata

inductive TonepoetMetadataLine where
  | beginBlock
  | endBlock
  | album (key value : Str)
  | track (ordinal : ℕ) (key value : Str)
  deriving DecidableEq, Repr

/-! ## Components -/

/-- `tonepoet_metadata_component_requires_quotes` (cue_parser.rs:132). -/
def componentRequiresQuotes (value : Str) (key : Bool) : Bool :=
  if value.isEmpty || value.head? == some '"' then true
  else if key && value.any isWhitespace then true
  else if !key && (value.head?.any isWhitespace || value.getLast?.any isWhitespace) then true
  else value.any isControl

def escapeChar (ch : Char) : Str :=
  if ch = '\\' then ['\\', '\\']
  else if ch = '"' then ['\\', '"']
  else if ch = '\n' then ['\\', 'n']
  else if ch = '\r' then ['\\', 'r']
  else if ch = '\t' then ['\\', 't']
  else if isControl ch then ['\\', 'u', '\x7b'] ++ formatUpperHex ch.toNat ++ ['\x7d']
  else [ch]

/-- `format_tonepoet_metadata_component` (cue_parser.rs:154). -/
def formatComponent (value : Str) (key : Bool) : Str :=
  if !componentRequiresQuotes value key then value else '"' :: (value.flatMap escapeChar ++ ['"'])

/-- The digits of `\u{…}` and what follows the closing brace. -/
def takeHexDigits (hex : Str) : Str → Option (Str × Str)
  | [] => none
  | digit :: rest =>
    if digit = '\x7d' then some (hex, rest)
    else if !isAsciiHexdigit digit || hex.length ≥ 6 then none
    else takeHexDigits (hex ++ [digit]) rest

/-- `\u{…}` after the `u`. -/
def takeUnicodeEscape : Str → Option (Char × Str)
  | open_ :: rest =>
    if open_ ≠ '\x7b' then none
    else
      match takeHexDigits [] rest with
      | none => none
      | some (hex, rest) => if hex.isEmpty then none else (charFromU32 (fromHex hex)).map fun ch => (ch, rest)
  | [] => none

/-- What follows a backslash. -/
def takeEscaped : Str → Option (Char × Str)
  | [] => none
  | escaped :: rest =>
    if escaped = '\\' then some ('\\', rest)
    else if escaped = '"' then some ('"', rest)
    else if escaped = 'n' then some ('\n', rest)
    else if escaped = 'r' then some ('\r', rest)
    else if escaped = 't' then some ('\t', rest)
    else if escaped = 'u' then takeUnicodeEscape rest
    else none

theorem length_takeHexDigits {hex hex' : Str} : ∀ {input rest : Str}, takeHexDigits hex input = some (hex', rest) →
    rest.length < input.length := by
  intro input
  induction input generalizing hex with
  | nil => intro rest h; cases h
  | cons digit input ih =>
    intro rest h
    rw [takeHexDigits] at h
    split_ifs at h
    · cases h
      exact Nat.lt_succ_self _
    · exact (ih h).trans (Nat.lt_succ_self _)

theorem length_takeEscaped {input rest : Str} {ch : Char} (h : takeEscaped input = some (ch, rest)) : rest.length < input.length := by
  cases input with
  | nil => cases h
  | cons escaped input =>
    rw [takeEscaped] at h
    split_ifs at h
    · cases h; exact Nat.lt_succ_self _
    · cases h; exact Nat.lt_succ_self _
    · cases h; exact Nat.lt_succ_self _
    · cases h; exact Nat.lt_succ_self _
    · cases h; exact Nat.lt_succ_self _
    · cases input with
      | nil => cases h
      | cons open_ input =>
        rw [takeUnicodeEscape] at h
        split_ifs at h
        rcases hdigits : takeHexDigits [] input with - | ⟨hex, rest'⟩
        · rw [hdigits] at h
          cases h
        · rw [hdigits] at h
          dsimp only at h
          split_ifs at h
          rw [Option.map_eq_some_iff] at h
          obtain ⟨ch', -, h⟩ := h
          cases h
          have hlt := length_takeHexDigits hdigits
          rw [List.length_cons, List.length_cons]
          omega

/-- The loop of `parse_tonepoet_metadata_quoted_component` (cue_parser.rs:181), after the opening quote. -/
def parseQuotedRest (out : Str) : Str → Option (Str × Str)
  | [] => none
  | ch :: rest =>
    if ch = '"' then some (out, rest)
    else if ch = '\\' then
      match _h : takeEscaped rest with
      | none => none
      | some (ch, rest') => parseQuotedRest (out ++ [ch]) rest'
    else parseQuotedRest (out ++ [ch]) rest
termination_by input => input.length
decreasing_by
  · exact (length_takeEscaped _h).trans (Nat.lt_succ_self _)
  · exact Nat.lt_succ_self _

/-- `parse_tonepoet_metadata_quoted_component` (cue_parser.rs:181). -/
def parseQuotedComponent : Str → Option (Str × Str)
  | first :: rest => if first ≠ '"' then none else parseQuotedRest [] rest
  | [] => none

/-! ## Records -/

/-- `strip_keyword_ci` (cue_parser.rs:5101), for an ASCII keyword: as many bytes are then as many characters. -/
def stripKeywordCi (line keyword : Str) : Option Str :=
  if line.length < keyword.length then none
  else
    let rest := line.drop keyword.length
    if !eqIgnoreAsciiCase (line.take keyword.length) keyword then none
    else if rest.isEmpty || rest.head?.any isWhitespace then some rest
    else none

/-- `tonepoet_metadata_payload` (cue_parser.rs:230). -/
def metadataPayload (line : Str) : Option Str := do
  let rem ← stripKeywordCi (trimStart line) remKeyword
  let payload ← stripKeywordCi (trimStart rem) tonepoetMetadataNamespace
  return trimStart payload

/-- `take_tonepoet_metadata_token` (cue_parser.rs:240). -/
def takeToken (input : Str) : Option (Str × Str) :=
  let input := trimStart input
  let token := input.takeWhile fun c => !isWhitespace c
  if token.isEmpty then none else some (token, input.drop token.length)

/-- `take_tonepoet_metadata_component` (cue_parser.rs:246). -/
def takeComponent (input : Str) (key : Bool) : Option (Str × Str) :=
  let input := trimStart input
  if input.head? = some '"' then parseQuotedComponent input
  else if key then takeToken input
  else some (input, [])

/-- `parse_tonepoet_metadata_record_component` (cue_parser.rs:258). -/
def parseRecordComponent (input : Str) (key : Bool) : Option (Str × Str) := do
  let (value, rest) ← takeComponent input key
  if key && (trim value).isEmpty then none
  else return (value, rest)

/-- `parse_tonepoet_metadata_value` (cue_parser.rs:266). -/
def parseValue : Str → Option Str
  | [] => none
  | first :: input =>
    if !isWhitespace first then none
    else
      let input := input.dropWhile fun c => c == ' ' || c == '\t'
      if input.head? = some '"' then do
        let (value, rest) ← parseQuotedComponent input
        if !(trim rest).isEmpty then none else return value
      else some input

/-- `parse_tonepoet_metadata_line` (cue_parser.rs:284). -/
def parseMetadataLine (line : Str) : Option TonepoetMetadataLine := do
  let payload ← metadataPayload line
  if eqIgnoreAsciiCase (trim payload) beginKeyword then return .beginBlock
  if eqIgnoreAsciiCase (trim payload) endKeyword then return .endBlock
  let (scope, rest) ← takeToken payload
  if eqIgnoreAsciiCase scope ['A'] then
    let (key, rest) ← parseRecordComponent rest true
    let value ← parseValue rest
    return .album key value
  else if eqIgnoreAsciiCase scope ['T'] then
    let (ordinal, rest) ← takeToken rest
    let ordinal ← parseUsize ordinal
    if ordinal = 0 then none
    else
      let (key, rest) ← parseRecordComponent rest true
      let value ← parseValue rest
      return .track ordinal key value
  else none

/-- `cue_user_metadata_push` (cue_parser.rs:368): under the spelling the key already has. -/
def userMetadataPush (metadata : CueUserMetadata) (key value : Str) : CueUserMetadata :=
  let canonicalSpelling := (metadata.keys.find? fun candidate => eqIgnoreAsciiCase candidate key).getD key
  metadata.upsert canonicalSpelling fun values => values.getD [] ++ [value]

/-- The body of the loop over the lines. -/
def metadataStep (state : ParsedTonepoetMetadata × Bool) (line : Str) : ParsedTonepoetMetadata × Bool :=
  let (parsed, inBlock) := state
  match parseMetadataLine line with
  | some .beginBlock => ({ parsed with present := true }, true)
  | some .endBlock => (parsed, false)
  | some (.album key value) => if inBlock then ({ parsed with album := userMetadataPush parsed.album key value }, inBlock) else state
  | some (.track ordinal key value) =>
    if inBlock then
      ({ parsed with tracks := parsed.tracks.upsert ordinal fun metadata => userMetadataPush (metadata.getD .empty) key value },
        inBlock)
    else state
  | none => state

/-- `parse_tonepoet_metadata` (cue_parser.rs:318). -/
def parseTonepoetMetadata (content : Str) : ParsedTonepoetMetadata :=
  ((lines content).foldl metadataStep (⟨false, .empty, .empty⟩, false)).1

/-! ## The block -/

/-- `REM TONEPOET_META_V1` and a space. -/
def recordStart : Str := remKeyword ++ ' ' :: (tonepoetMetadataNamespace ++ [' '])

/-- A record of the block: its scope, key and value. -/
def formatRecord (scope key value : Str) : Str :=
  recordStart ++ scope ++ ' ' :: (formatComponent key true ++ ' ' :: formatComponent value false)

/-- The records of one scope. -/
def formatScope (scope : Str) (metadata : CueUserMetadata) : List Str :=
  metadata.entries.flatMap fun (key, values) => if (trim key).isEmpty then [] else values.map (formatRecord scope key)

/-- `format_tonepoet_metadata_block` (cue_parser.rs:381). -/
def formatTonepoetMetadataBlock (album : CueUserMetadata) (tracks : List CueUserMetadata) : List Str :=
  [recordStart ++ beginKeyword] ++ formatScope ['A'] album ++
    tracks.zipIdx.flatMap (fun (metadata, index) => formatScope ('T' :: ' ' :: formatNat (index + 1)) metadata) ++
    [recordStart ++ endKeyword]

end Cue
