import Tonepoet.Cue.Scanners

/-!
# Rewriting the metadata of a sheet (cue_parser.rs:1619-1696, 2629-3010, 3775-4290)

The replacement's values are put on the lines that the layout records, or on new lines; the other lines stay as they
are. What is done to each line is queued first, and the text is then put together in one pass.
-/

namespace Cue

open Rust

/-! ## Modes and deletions -/

inductive CueMetadataRewriteMode where
  | preserveAbsent
  | albumMergeProjection
  | authoritativeProjection
  deriving DecidableEq, Repr

inductive CueAlbumMetadataField where
  | title
  | performer
  | date
  | genre
  | catalog
  | isrc
  deriving DecidableEq, Repr

def CueAlbumMetadataField.directive : CueAlbumMetadataField → Directive
  | title => .title
  | performer => .performer
  | date => .date
  | genre => .genre
  | catalog => .catalog
  | isrc => .isrc

/-- The fields that were cleared on purpose. The keys of the tracks are the replacement's numbers. -/
structure CueAlbumMetadataDeletionIntent where
  albumFields : List CueAlbumMetadataField
  trackFields : List (ℕ × List CueAlbumMetadataField)

/-- `CueAlbumMetadataDeletionIntent::requests` (cue_parser.rs:1657). -/
def CueAlbumMetadataDeletionIntent.requests (intent : CueAlbumMetadataDeletionIntent) (albumScope : Bool) (trackNumber : Option ℕ)
    (field : CueAlbumMetadataField) : Bool :=
  if albumScope then decide (field ∈ intent.albumFields)
  else (trackNumber.bind fun number => intent.trackFields.lookup number).any fun fields => decide (field ∈ fields)

inductive CueMetadataFieldAction where
  | preserve
  | set (value : Str)
  | delete
  deriving DecidableEq, Repr

/-- `cue_metadata_field_action` (cue_parser.rs:1680). -/
def cueMetadataFieldAction (desired : Option Str) (authoritative : Bool) : CueMetadataFieldAction :=
  if authoritative && desired.all fun value => (trim value).isEmpty then .delete
  else
    match desired with
    | some value => .set value
    | none => .preserve

/-- What the rewriting refuses, with the data of each message. -/
inductive CueRewriteError where
  | trackCount (sidecar replacement : ℕ)
  | replacementTrackUnnumbered
  | replacementTrackTwice (number : ℕ)
  | sidecarTrackUnnumbered
  | sidecarTrackTwice (number : ℕ)
  | noReplacementTrack (number : ℕ)
  | contentInBlock (lineNumber : ℕ)
  | malformedRecord (lineNumber : ℕ)
  | nestedBlock (lineNumber : ℕ)
  | secondBlock
  | strayEnd (lineNumber : ℕ)
  | trackRecordOutsideBlock (lineNumber : ℕ)
  | albumRecordOutsideBlock (lineNumber : ℕ)
  | sidecarOrdinal (ordinal trackCount : ℕ)
  | unterminatedBlock
  | replacementOrdinal (ordinal trackCount : ℕ)
  | lineBreak (field : Str)
  | doubleQuote (field : Str)
  | remDoubleQuote (field : Str)
  | emptyValue (field : Str)
  | trackNumberRange (number : ℕ)
  | trackHeaderUnsafe
  | missingTrackHeader
  | missingInsertionPoint
  deriving DecidableEq, Repr

/-! ## One line -/

def leadingIndent (body : Str) : Str := body.takeWhile isWhitespace

def scopeIndent (layout : CueScopeLayout) : Str := layout.indent.getD []

/-- `replace_quoted_value` (cue_parser.rs:4155): the line is cut at its first two quotes after the keyword's start. -/
def replaceQuotedValue (body keyword value : Str) : Option Str := do
  let trimmed := trimStart body
  let _ ← stripKeywordCi trimmed keyword
  let quoted := trimmed.dropWhile (· ≠ '"')
  if '"' ∈ quoted.tail then
    some (leadingIndent body ++ trimmed.takeWhile (· ≠ '"') ++ '"' :: (value ++ quoted.tail.dropWhile (· ≠ '"')))
  else none

/-- `replace_plain_value` (cue_parser.rs:4170). -/
def replacePlainValue (body keyword value : Str) : Option Str := do
  let rest ← stripKeywordCi (trimStart body) keyword
  let spacing := rest.takeWhile isWhitespace
  some (body.take (body.length - rest.length) ++ (if spacing.isEmpty then [' '] else spacing) ++ trim value ++
    body.rtakeWhile isWhitespace)

/-- `format_rem_value` (cue_parser.rs:4243). -/
def formatRemValue (value : Str) : Str := if value.any isWhitespace then '"' :: (value ++ ['"']) else trim value

/-- `replace_rem_value` (cue_parser.rs:4189): a `YEAR` line stays one. -/
def replaceRemValue (body field value : Str) : Option Str := do
  let remRest ← stripKeywordCi (trimStart body) remKeyword
  let fieldText := trimStart remRest
  let _ ← (stripKeywordCi fieldText field).or
    (if eqIgnoreAsciiCase field dateField then stripKeywordCi fieldText yearField else none)
  let token := fieldText.takeWhile fun c => !isWhitespace c
  let spacing := (fieldText.drop token.length).takeWhile isWhitespace
  some (body.take (body.length - fieldText.length) ++ token ++ (if spacing.isEmpty then [' '] else spacing) ++ formatRemValue value)

def formatQuotedLine (indent keyword value : Str) : Str := indent ++ keyword ++ ' ' :: '"' :: (value ++ ['"'])

def formatRemLine (indent field value : Str) : Str := indent ++ remKeyword ++ ' ' :: (field ++ ' ' :: formatRemValue value)

def formatPlainLine (indent keyword value : Str) : Str := indent ++ keyword ++ ' ' :: trim value

/-- `validate_cue_line_metadata_value` (cue_parser.rs:4278). -/
def validateCueLineMetadataValue (field value : Str) : Outcome CueRewriteError Unit :=
  if '\r' ∈ value ∨ '\n' ∈ value then fail (.lineBreak field) else pure ()

/-- `validate_cue_quoted_metadata_value` (cue_parser.rs:4255). -/
def validateCueQuotedMetadataValue (field value : Str) : Outcome CueRewriteError Unit := do
  validateCueLineMetadataValue field value
  if '"' ∈ value then fail (.doubleQuote field) else pure ()

/-- The checks in `queue_rem_metadata_edit` (cue_parser.rs:3926). -/
def validateRemMetadataValue (field value : Str) : Outcome CueRewriteError Unit := do
  validateCueLineMetadataValue field value
  if '"' ∈ value then fail (.remDoubleQuote field) else pure ()

/-- `validate_cue_plain_metadata_value` (cue_parser.rs:4266). -/
def validateCuePlainMetadataValue (field value : Str) : Outcome CueRewriteError Unit := do
  validateCueLineMetadataValue field value
  if (trim value).isEmpty then fail (.emptyValue field) else pure ()

/-- `is_ascii_cue_whitespace`. -/
def isAsciiCueWhitespace (c : Char) : Bool := (0x09 ≤ c.toNat && c.toNat ≤ 0x0D) || c == ' '

/-- `cue_track_number_span` (cue_parser.rs:4988), as the texts before the number and behind it. -/
def cueTrackNumberSpan (line : Str) : Option (Str × Str) :=
  let rest := line.dropWhile isAsciiCueWhitespace
  if !eqIgnoreAsciiCase (rest.take trackKeyword.length) trackKeyword then none
  else
    let rest := rest.drop trackKeyword.length
    if !rest.head?.any isAsciiCueWhitespace then none
    else
      let rest := rest.dropWhile isAsciiCueWhitespace
      if !rest.head?.any Char.isDigit then none
      else some (line.take (line.length - rest.length), rest.dropWhile Char.isDigit)

/-- `{:02}`. -/
def formatTwoDigits (n : ℕ) : Str := (formatNat n).leftpad 2 '0'

/-- `rewrite_track_header_number` (cue_parser.rs:5015). -/
def rewriteTrackHeaderNumber (line : Str) (desiredNumber : ℕ) : Outcome CueRewriteError Str := do
  if desiredNumber = 0 ∨ desiredNumber > 99 then fail (.trackNumberRange desiredNumber)
  let (before, behind) ← okOr .trackHeaderUnsafe (cueTrackNumberSpan line)
  return before ++ formatTwoDigits desiredNumber ++ behind

/-! ## One scope -/

/-- What is queued: new bodies of lines, lines that go, and new lines. -/
structure CueMetadataEdits where
  replacements : List (ℕ × Str)
  deletions : List ℕ
  insertions : List Str

/-- How a kind of field is checked, put on its line and on a new one. -/
structure MetadataForm where
  validate : Str → Outcome CueRewriteError Unit
  replaceValue : Str → Str → Option Str
  formatLine : Str → Str → Str

def quotedForm (keyword : Str) : MetadataForm where
  validate := validateCueQuotedMetadataValue keyword
  replaceValue body value := replaceQuotedValue body keyword value
  formatLine indent value := formatQuotedLine indent keyword value

def remForm (field : Str) : MetadataForm where
  validate := validateRemMetadataValue field
  replaceValue body value := replaceRemValue body field value
  formatLine indent value := formatRemLine indent field value

def plainForm (keyword : Str) : MetadataForm where
  validate := validateCuePlainMetadataValue keyword
  replaceValue body value := replacePlainValue body keyword value
  formatLine indent value := formatPlainLine indent keyword value

/-- The line of a field with another value. -/
def MetadataForm.rewriteLine (form : MetadataForm) (body value : Str) : Str :=
  (form.replaceValue body value).getD (form.formatLine (leadingIndent body) value)

section Queue

variable (ls : List CueTextLine)

/-- The body that the three functions below share. -/
def queueMetadataEdit (form : MetadataForm) (existingIdx : Option ℕ) (desired : Option Str) (layout : CueScopeLayout)
    (authoritative : Bool) (edits : CueMetadataEdits) : Outcome CueRewriteError CueMetadataEdits :=
  match cueMetadataFieldAction desired authoritative with
  | .preserve => return edits
  | .delete => return { edits with deletions := edits.deletions ++ existingIdx.toList }
  | .set value => do
    form.validate value
    match existingIdx with
    | some idx => do
      let line ← index ls idx
      let rewritten := form.rewriteLine line.body value
      if rewritten ≠ line.body then return { edits with replacements := (idx, rewritten) :: edits.replacements }
      else return edits
    | none => return { edits with insertions := edits.insertions ++ [form.formatLine (scopeIndent layout) value] }

/-- `queue_quoted_metadata_edit` (cue_parser.rs:3892). -/
def queueQuotedMetadataEdit (existingIdx : Option ℕ) (desired : Option Str) (keyword : Str) :=
  queueMetadataEdit ls (quotedForm keyword) existingIdx desired

/-- `queue_rem_metadata_edit` (cue_parser.rs:3926). -/
def queueRemMetadataEdit (existingIdx : Option ℕ) (desired : Option Str) (field : Str) :=
  queueMetadataEdit ls (remForm field) existingIdx desired

/-- `queue_plain_metadata_edit` (cue_parser.rs:3966). -/
def queuePlainMetadataEdit (existingIdx : Option ℕ) (desired : Option Str) (keyword : Str) :=
  queueMetadataEdit ls (plainForm keyword) existingIdx desired

/-- `queue_scope_metadata_edits` (cue_parser.rs:3775). -/
def queueScopeMetadataEdits (layout : CueScopeLayout) (desired : ExplicitCueScopeMetadata) (albumScope : Bool)
    (mode : CueMetadataRewriteMode) (deletionIntent : Option CueAlbumMetadataDeletionIntent) (deletionTrackNumber : Option ℕ)
    (edits : CueMetadataEdits) : Outcome CueRewriteError CueMetadataEdits := do
  let authoritative := decide (mode = .authoritativeProjection)
  let fieldAuthoritative := fun field => authoritative || deletionIntent.any fun intent =>
    intent.requests albumScope (deletionTrackNumber.or layout.trackNumber) field
  let edits := if authoritative then { edits with deletions := edits.deletions ++ layout.authoritativeDuplicates } else edits
  let edits ← queueQuotedMetadataEdit ls layout.title desired.title titleKeyword layout (fieldAuthoritative .title) edits
  let edits ← queueQuotedMetadataEdit ls layout.performer desired.performer performerKeyword layout (fieldAuthoritative .performer) edits
  let edits ← if !authoritative then
      queueQuotedMetadataEdit ls layout.songwriter desired.songwriter songwriterKeyword layout false edits
    else pure edits
  let edits ← if !albumScope && (authoritative || mode = .albumMergeProjection) then
      queuePlainMetadataEdit ls layout.isrc desired.isrc isrcKeyword layout (fieldAuthoritative .isrc) edits
    else pure edits
  if albumScope then
    let edits ← queueRemMetadataEdit ls layout.date desired.date dateField layout (fieldAuthoritative .date) edits
    let edits ← queueRemMetadataEdit ls layout.genre desired.genre genreField layout (fieldAuthoritative .genre) edits
    queuePlainMetadataEdit ls layout.catalog desired.catalog catalogKeyword layout (fieldAuthoritative .catalog) edits
  else return edits

end Queue

/-! ## Tracks -/

/-- The replacement's tracks by number. -/
def numberTracks (desiredTracks : List ExplicitCueScopeMetadata) : Outcome CueRewriteError (List (ℕ × ExplicitCueScopeMetadata)) :=
  desiredTracks.foldlM (fun byNumber desired => do
    let number ← okOr .replacementTrackUnnumbered desired.trackNumber
    if (byNumber.lookup number).isSome then fail (.replacementTrackTwice number) else return (number, desired) :: byNumber) []

/-- The number of a track of the sidecar, if no track before has it. -/
def nextLayoutNumber (seen : List ℕ) (layout : CueScopeLayout) : Outcome CueRewriteError ℕ := do
  let number ← okOr .sidecarTrackUnnumbered layout.trackNumber
  if number ∈ seen then fail (.sidecarTrackTwice number) else return number

/-- `pair_cue_track_metadata` (cue_parser.rs:2629). An album merge pairs by position, the other modes by number. -/
def pairCueTrackMetadata (layoutTracks : List CueScopeLayout) (desiredTracks : List ExplicitCueScopeMetadata)
    (mode : CueMetadataRewriteMode) : Outcome CueRewriteError (List (CueScopeLayout × ExplicitCueScopeMetadata)) := do
  if layoutTracks.length ≠ desiredTracks.length then fail (.trackCount layoutTracks.length desiredTracks.length)
  let desiredByNumber ← numberTracks desiredTracks
  if mode = .albumMergeProjection then
    let _ ← layoutTracks.foldlM (fun seen layout => do return (← nextLayoutNumber seen layout) :: seen) []
    return layoutTracks.zip desiredTracks
  else
    let (_, paired) ← layoutTracks.foldlM (fun (seen, paired) layout => do
      let number ← nextLayoutNumber seen layout
      let desired ← okOr (.noReplacementTrack number) (desiredByNumber.lookup number)
      return (number :: seen, paired ++ [(layout, desired)])) (([] : List ℕ), [])
    return paired

/-! ## The Tonepoet block -/

structure OwnedLines where
  owned : List ℕ
  current : List ℕ
  inBlock : Bool
  blockCount : ℕ

/-- The body of the loop of `tonepoet_metadata_owned_line_indices`. -/
def OwnedLines.step (trackCount : ℕ) (s : OwnedLines) (line : CueTextLine × ℕ) : Outcome CueRewriteError OwnedLines :=
  let (line, idx) := line
  if (metadataPayload line.body).isNone then
    if !s.inBlock then return s
    else if (trim line.body).isEmpty then return { s with current := s.current ++ [idx] }
    else fail (.contentInBlock (idx + 1))
  else
    match parseMetadataLine line.body with
    | none => fail (.malformedRecord (idx + 1))
    | some .beginBlock =>
      if s.inBlock then fail (.nestedBlock (idx + 1))
      else if s.blockCount + 1 > 1 then fail .secondBlock
      else return { s with current := [idx], inBlock := true, blockCount := s.blockCount + 1 }
    | some .endBlock =>
      if !s.inBlock then fail (.strayEnd (idx + 1))
      else return { s with owned := s.owned ++ (s.current ++ [idx]), current := [], inBlock := false }
    | some (.track ordinal _ _) =>
      if !s.inBlock then fail (.trackRecordOutsideBlock (idx + 1))
      else if ordinal > trackCount then fail (.sidecarOrdinal ordinal trackCount)
      else return { s with current := s.current ++ [idx] }
    | some (.album _ _) =>
      if !s.inBlock then fail (.albumRecordOutsideBlock (idx + 1))
      else return { s with current := s.current ++ [idx] }

/-- `tonepoet_metadata_owned_line_indices` (cue_parser.rs:2694). -/
def tonepoetMetadataOwnedLineIndices (ls : List CueTextLine) (trackCount : ℕ) : Outcome CueRewriteError (List ℕ) := do
  let s ← ls.zipIdx.foldlM (OwnedLines.step trackCount) ⟨[], [], false, 0⟩
  if s.inBlock then fail .unterminatedBlock else return s.owned

/-- `explicit_tonepoet_metadata_block_lines` (cue_parser.rs:2788). -/
def explicitTonepoetMetadataBlockLines (metadata : ParsedTonepoetMetadata) (trackCount : ℕ) : Outcome CueRewriteError (List Str) :=
  match metadata.tracks.keys.find? (· > trackCount) with
  | some ordinal => fail (.replacementOrdinal ordinal trackCount)
  | none =>
    let tracks := (List.range' 1 trackCount).map fun ordinal => (metadata.tracks.entries.lookup ordinal).getD .empty
    return formatTonepoetMetadataBlock metadata.album tracks

/-! ## The text -/

/-- `dominant_eol` (cue_parser.rs:4135). -/
def dominantEol (ls : List CueTextLine) : LineEnding :=
  if ls.countP (·.eol == LineEnding.crLf.text) > ls.countP (·.eol == LineEnding.lf.text) then .crLf else .lf

/-- New lines, each with its ending. -/
def insertedText (insertions : List Str) (eol : Str) : Str := insertions.flatMap fun body => body ++ eol

/-- What stands in the place of a line. -/
def rewrittenLine (edits : CueMetadataEdits) (trackInsertions : List (ℕ × List Str)) (defaultEol : Str) (line : CueTextLine × ℕ) : Str :=
  let (line, idx) := line
  (if idx ∈ edits.deletions then [] else (edits.replacements.lookup idx).getD line.body ++ line.eol) ++
    insertedText ((trackInsertions.lookup idx).getD []) (if line.eol.isEmpty then defaultEol else line.eol)

/-- The text with everything that is queued (cue_parser.rs:2970-3007). -/
def assembleText (ls : List CueTextLine) (albumInsertAt : ℕ) (edits : CueMetadataEdits) (trackInsertions : List (ℕ × List Str)) : Str :=
  let defaultEol := (dominantEol ls).text
  let albumText := insertedText edits.insertions defaultEol
  (ls.zipIdx.flatMap fun line =>
    (if line.2 = albumInsertAt then albumText else []) ++ rewrittenLine edits trackInsertions defaultEol line) ++
    (if ls.isEmpty || albumInsertAt = ls.length then albumText else [])

section Rewrite

variable (mode : CueMetadataRewriteMode) (deletionIntent : Option CueAlbumMetadataDeletionIntent)

/-- A track: its header and its scope. The album's new lines wait in `edits.insertions`. -/
def queueTrackEdits (ls : List CueTextLine) (queued : CueMetadataEdits × List (ℕ × List Str))
    (pair : CueScopeLayout × ExplicitCueScopeMetadata) : Outcome CueRewriteError (CueMetadataEdits × List (ℕ × List Str)) := do
  let (edits, trackInsertions) := queued
  let (trackLayout, desiredTrack) := pair
  let replacements ← if mode = .albumMergeProjection ∧ trackLayout.trackNumber ≠ desiredTrack.trackNumber then do
      let desiredNumber ← okOr .replacementTrackUnnumbered desiredTrack.trackNumber
      let headerIdx ← okOr .missingTrackHeader trackLayout.trackHeader
      let header ← index ls headerIdx
      let rewritten ← rewriteTrackHeaderNumber header.body desiredNumber
      pure ((headerIdx, rewritten) :: edits.replacements)
    else pure edits.replacements
  let scope ← queueScopeMetadataEdits ls trackLayout desiredTrack false mode deletionIntent desiredTrack.trackNumber
    ⟨replacements, edits.deletions, []⟩
  let edits := { scope with insertions := edits.insertions }
  if scope.insertions.isEmpty then return (edits, trackInsertions)
  else
    let insertAfter ← okOr .missingInsertionPoint trackLayout.insertAfter
    return (edits, (insertAfter, scope.insertions) :: trackInsertions)

/-- `rewrite_cue_metadata_text` (cue_parser.rs:2887). -/
def rewriteCueMetadataText (originalText : Str) (desired : ExplicitCueMetadata) : Outcome CueRewriteError Str := do
  let ls := splitCueLinesPreservingEol originalText
  let layout := cueMetadataLayout ls
  if layout.tracks.length ≠ desired.tracks.length then fail (.trackCount layout.tracks.length desired.tracks.length)
  let (owned, block) ← match desired.tonepoetMetadata with
    | some metadata => do
      let owned ← tonepoetMetadataOwnedLineIndices ls layout.tracks.length
      let block ← explicitTonepoetMetadataBlockLines metadata desired.tracks.length
      pure (owned, block)
    | none => pure ([], [])
  let edits ← queueScopeMetadataEdits ls layout.album desired.album true mode deletionIntent none ⟨[], owned, block⟩
  let pairs ← pairCueTrackMetadata layout.tracks desired.tracks mode
  let (edits, trackInsertions) ← pairs.foldlM (queueTrackEdits mode deletionIntent ls) (edits, [])
  return assembleText ls layout.albumInsertAt edits trackInsertions

end Rewrite

end Cue
