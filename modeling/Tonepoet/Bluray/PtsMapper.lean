import Tonepoet.Bluray.TsDemux
import Tonepoet.Library.ClockDistance
import Tonepoet.Rust

/-!
# The PTS mapper (bluray_pts.rs:20-286)

A title is a list of clips, each with a clock of 33 bits of its own. The mapper finds the place in the title of a clock
reading, from the clip that it is in and the place before. Its cells are the fields that a call changes.
-/

namespace Bluray

def pts33bitModulus : ℕ := 2 ^ 33

structure BlurayPtsContinuitySegment where
  titleStartPts90k : UInt64
  titleEndPts90k : UInt64
  clipRef : UInt32
  clipStartPts90k : UInt64
  clipEndPts90k : UInt64
  deriving DecidableEq, Repr

inductive BlurayPtsMapMode where
  | identityContinuous
  | segmented (segments : List BlurayPtsContinuitySegment)
  | unsupported
  deriving DecidableEq, Repr

structure BlurayPtsMapper where
  mode : BlurayPtsMapMode
  segmentHint : Option ℕ
  lastTitlePts90k : Option ℕ
  anchorTitlePts90k : Option ℕ
  deriving DecidableEq, Repr

/-- `pts_forward_distance` (bluray_pts.rs:278). -/
def ptsForwardDistance (startPts90k endPts90k : ℕ) : ℕ :=
  let start := startPts90k % pts33bitModulus
  let end_ := endPts90k % pts33bitModulus
  if start ≤ end_ then end_ - start else pts33bitModulus - start + end_

/-- `title_pts_abs_diff` (bluray_pts.rs:270). -/
def titlePtsAbsDiff (a b : ℕ) : ℕ := if b ≤ a then a - b else b - a

/-- A segment in `validate_pts_segments` (bluray_pts.rs:217), after the one that ends at `previousTitleEnd`. -/
def validatePtsSegment (previousTitleEnd : Option ℕ) (segment : BlurayPtsContinuitySegment) : Except ConvertError Unit :=
  let clip := segment.clipRef
  let titleStart := segment.titleStartPts90k
  let titleEnd := segment.titleEndPts90k
  let clipStart := segment.clipStartPts90k
  let clipEnd := segment.clipEndPts90k
  let titleDuration := titleEnd.toNat - titleStart.toNat
  let clipDuration := ptsForwardDistance clipStart.toNat clipEnd.toNat
  let previous := previousTitleEnd.getD 0
  if titleEnd ≤ titleStart then
    .error (.trackValidation
      s!"invalid Blu-ray PTS continuity segment for clip {clip}: title range {titleStart}..{titleEnd} is empty or reversed")
  else if clipDuration = 0 then
    .error (.trackValidation
      s!"invalid Blu-ray PTS continuity segment for clip {clip}: clip range {clipStart}..{clipEnd} has zero 33-bit duration")
  else if titleDuration ≠ clipDuration then
    .error (.trackValidation (s!"invalid Blu-ray PTS continuity segment for clip {clip}: " ++
      s!"title duration {titleDuration} does not match clip PTS duration {clipDuration}"))
  else if previousTitleEnd.any (fun previousTitleEnd => titleStart.toNat < previousTitleEnd) then
    .error (.trackValidation
      s!"invalid Blu-ray PTS continuity segments: title range starting at {titleStart} overlaps prior end {previous}")
  else .ok ()

/-- `validate_pts_segments` (bluray_pts.rs:217). -/
def validatePtsSegments : Option ℕ → List BlurayPtsContinuitySegment → Except ConvertError Unit
  | _, [] => .ok ()
  | previousTitleEnd, segment :: segments => do
    validatePtsSegment previousTitleEnd segment
    validatePtsSegments (some segment.titleEndPts90k.toNat) segments

/-- `map_raw_pts_in_segment` (bluray_pts.rs:253). -/
def mapRawPtsInSegment (segment : BlurayPtsContinuitySegment) (rawPts90k : ℕ) : Option ℕ :=
  let duration := ptsForwardDistance segment.clipStartPts90k.toNat segment.clipEndPts90k.toNat
  if duration = 0 then none
  else
    let delta := ptsForwardDistance segment.clipStartPts90k.toNat rawPts90k
    if duration ≤ delta then none
    else
      (Rust.checkedAdd segment.titleStartPts90k.toNat delta).bind fun titlePts =>
        if titlePts < segment.titleEndPts90k.toNat then some titlePts else none

/-- The key that `segmented` sorts by. -/
def keyLe (a b : BlurayPtsContinuitySegment) : Bool :=
  a.titleStartPts90k < b.titleStartPts90k || (a.titleStartPts90k == b.titleStartPts90k && a.clipRef ≤ b.clipRef)

/-- The last index of an element with the property. -/
def rposition {α : Type} (p : α → Bool) (xs : List α) : Option ℕ := (xs.reverse.findIdx? p).map fun i => xs.length - 1 - i

namespace BlurayPtsMapper

def identityContinuous : BlurayPtsMapper := ⟨.identityContinuous, none, none, none⟩

/-- `segmented` (bluray_pts.rs:62). -/
def segmented (segments : List BlurayPtsContinuitySegment) : Except ConvertError BlurayPtsMapper :=
  if segments.isEmpty then .ok identityContinuous
  else do
    let segments := segments.mergeSort keyLe
    validatePtsSegments none segments
    return ⟨.segmented segments, some 0, none, none⟩

/-- `prime_for_title_pts` (bluray_pts.rs:79). -/
def primeForTitlePts (self : BlurayPtsMapper) (titlePts90k : ℕ) : BlurayPtsMapper :=
  let self := { self with anchorTitlePts90k := some titlePts90k }
  match self.mode with
  | .segmented segments =>
    let inside := segments.findIdx? fun s => s.titleStartPts90k.toNat ≤ titlePts90k && titlePts90k < s.titleEndPts90k.toNat
    let before := rposition (fun s => s.titleEndPts90k.toNat ≤ titlePts90k) segments
    match inside <|> before with
    | some index => { self with segmentHint := some index }
    | none => self
  | _ => self

/-- The loop of `try_first_segment_candidate` (bluray_pts.rs:135): the index, place and score of the best candidate so far. -/
def firstCandidateStep (anchor : Option ℕ) (rawPts90k : ℕ) (best : Option (ℕ × ℕ × ℕ)) (entry : BlurayPtsContinuitySegment × ℕ) :
    Option (ℕ × ℕ × ℕ) :=
  match mapRawPtsInSegment entry.1 rawPts90k with
  | none => best
  | some mapped =>
    let score := (anchor.map (titlePtsAbsDiff mapped)).getD 0
    if best.all fun (_, _, bestScore) => score < bestScore then some (entry.2, mapped, score) else best

/-- `try_first_segment_candidate` (bluray_pts.rs:135), before it is accepted. -/
def firstCandidate (self : BlurayPtsMapper) (segments : List BlurayPtsContinuitySegment) (rawPts90k : ℕ) : Option (ℕ × ℕ) :=
  (segments.zipIdx.foldl (firstCandidateStep self.anchorTitlePts90k rawPts90k) none).map fun (index, mapped, _) => (index, mapped)

/-- `try_segment_candidate` (bluray_pts.rs:159), before it is accepted: a place in the segment, not before the last one. -/
def segmentCandidate (self : BlurayPtsMapper) (segments : List BlurayPtsContinuitySegment) (rawPts90k index : ℕ) : Option (ℕ × ℕ) := do
  let segment ← segments[index]?
  let mapped ← mapRawPtsInSegment segment rawPts90k
  if self.lastTitlePts90k.all (fun last => last ≤ mapped) then some (index, mapped) else none

/-- `accept_segment_candidate` (bluray_pts.rs:175). -/
def acceptSegmentCandidate (self : BlurayPtsMapper) (index mappedTitlePts90k : ℕ) : BlurayPtsMapper :=
  { self with segmentHint := some index, lastTitlePts90k := some mappedTitlePts90k }

/-- The segment that is tried first. -/
def hint (self : BlurayPtsMapper) (segments : List BlurayPtsContinuitySegment) : ℕ := min (self.segmentHint.getD 0) (segments.length - 1)

/-- The search over the segments behind the hint. -/
def forwardCandidate (self : BlurayPtsMapper) (segments : List BlurayPtsContinuitySegment) (rawPts90k : ℕ) : Option (ℕ × ℕ) :=
  (List.range' (self.hint segments + 1) (segments.length - (self.hint segments + 1))).findSome? (self.segmentCandidate segments rawPts90k)

/-- The search over the segments before the hint. -/
def backwardCandidate (self : BlurayPtsMapper) (segments : List BlurayPtsContinuitySegment) (rawPts90k : ℕ) : Option (ℕ × ℕ) :=
  (List.range (self.hint segments)).findSome? (self.segmentCandidate segments rawPts90k)

/-- What `map_pes_pts_to_title_pts` accepts, in the order in which it tries (bluray_pts.rs:97). -/
def candidate (self : BlurayPtsMapper) (segments : List BlurayPtsContinuitySegment) (rawPts90k : ℕ) : Option (ℕ × ℕ) :=
  (if self.lastTitlePts90k.isNone then self.firstCandidate segments rawPts90k else none) <|>
    self.segmentCandidate segments rawPts90k (self.hint segments) <|> self.forwardCandidate segments rawPts90k <|>
      self.backwardCandidate segments rawPts90k

/-- `map_pes_pts_to_title_pts` (bluray_pts.rs:97). -/
def mapPesPtsToTitlePts (self : BlurayPtsMapper) (rawPts90k : ℕ) : BlurayPtsMapper × Option ℕ :=
  match self.mode with
  | .identityContinuous => (self, some rawPts90k)
  | .segmented segments =>
    match self.candidate segments rawPts90k with
    | some (index, mapped) => (self.acceptSegmentCandidate index mapped, some mapped)
    | none => (self, none)
  | .unsupported => (self, none)

end BlurayPtsMapper

/-! ## Calls -/

inductive PtsCall where
  | prime (titlePts90k : ℕ)
  | map (rawPts90k : ℕ)

/-- The mapper after a run of calls, and what the mappings return. -/
def runCalls (mapper : BlurayPtsMapper) : List PtsCall → BlurayPtsMapper × List (Option ℕ)
  | [] => (mapper, [])
  | .prime titlePts90k :: calls => runCalls (mapper.primeForTitlePts titlePts90k) calls
  | .map rawPts90k :: calls =>
    let (mapper, mapped) := mapper.mapPesPtsToTitlePts rawPts90k
    let (mapper, results) := runCalls mapper calls
    (mapper, mapped :: results)

end Bluray
