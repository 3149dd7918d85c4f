import Tonepoet.Dst.Segments

/-!
# The header of a compressed frame (dst/decoder.rs:697-996, dst/tables.rs)

`CompressedSyntax.read` parses the segment tables, the table maps, the filter coefficients and the
probability tables that stand in front of the arithmetic code.
-/

namespace Dst

open Rust BitString BitReader

/-- `FSETS_CODE_PRED_COEFF` and `PROBS_CODE_PRED_COEFF` (tables.rs:12-14). -/
def fsetsCodePredCoeff : List (List ℤ) := [[-8, 0, 0], [-16, 8, 0], [-9, -5, 6]]
def probsCodePredCoeff : List (List ℤ) := [[-8, 0, 0], [-16, 8, 0], [-24, 24, -8]]

/-- `Table` (tables.rs:17). -/
structure Table where
  elements : ℕ
  length : List ℕ
  coeff : List (List ℤ)

def Table.default : Table where
  elements := 1
  length := List.replicate maxElements 0
  coeff := List.replicate maxElements (List.replicate maxTableLen 0)

/-- One `[[i16; 256]; 16]` of `FilterTable`: the contribution of a history byte at a byte tap. -/
abbrev FilterLut := Fin 16 → UInt8 → ℤ

/-- `prob_dst_x_bit` (tables.rs:47): the low seven bits, reversed within a byte and halved. -/
def probDstXBit (coeff : ℤ) : ℕ := value (ofNat 8 (coeff % 128).toNat).reverse / 2 + 1

/-! ## Table maps -/

/-- `read_table_number` (decoder.rs:830). -/
def readTableNumber (countTables : ℕ) : Parse ℕ := do readBits (← log2RoundUp countTables)

/-- One table number of a map: a number equal to the count so far opens a new table. -/
def readTableEntry (segments : SegmentData) (countTables ch seg : ℕ) : Parse (SegmentData × ℕ) := do
  let value ← readTableNumber countTables
  let tableForSegment ← assign2 segments.tableForSegment ch seg value
  let segments := { segments with tableForSegment }
  if value = countTables then
    let countTables ← okOr (.invalidMapping "table count overflow") (checkedAdd countTables 1)
    return (segments, countTables)
  else if countTables < value then fail (.invalidMapping "invalid table number")
  else return (segments, countTables)

/-- Channel `ch` gets channel 0's map, if it has as many segments (decoder.rs:789). -/
def shareMapping (segments : SegmentData) (ch : ℕ) : Parse SegmentData := do
  let count ← index segments.segmentCount 0
  let chCount ← index segments.segmentCount ch
  if chCount ≠ count then fail (.invalidMapping "shared mapping with different per-channel segment counts")
  else
    forRange 0 count segments fun segments seg => do
      let table ← index2 segments.tableForSegment 0 seg
      return { segments with tableForSegment := ← assign2 segments.tableForSegment ch seg table }

/-- The map of one channel; the frame's first segment always has table 0. -/
def readChannelMapping (s : SegmentData × ℕ) (ch : ℕ) : Parse (SegmentData × ℕ) := do
  let count ← index s.1.segmentCount ch
  forRange 0 count s fun s seg => if ch = 0 ∧ seg = 0 then pure s else readTableEntry s.1 s.2 ch seg

/-- `read_table_mapping_data` (decoder.rs:768). -/
def readTableMappingData (channels maxTableCount : ℕ) (segments : SegmentData) : Parse (SegmentData × ℕ) := do
  let segments := { segments with tableForSegment := ← assign2 segments.tableForSegment 0 0 0 }
  let sameMapAllChannels ← readBit
  let (segments, countTables) ←
    if sameMapAllChannels then do
      let count ← index segments.segmentCount 0
      let (segments, countTables) ← forRange 1 count (segments, 1) fun s seg => readTableEntry s.1 s.2 0 seg
      let segments ← forRange 1 channels segments shareMapping
      pure (segments, countTables)
    else
      forRange 0 channels (segments, 1) readChannelMapping
  if countTables = 0 ∨ maxTableCount < countTables ∨ maxElements < countTables then
    fail (.invalidMapping "too many DST tables")
  else return (segments, countTables)

/-! ## Coefficient tables -/

/-- The result of an `i32` operation: one that does not fit is an overflow. -/
def i32 {m : Type → Type} [Monad m] [MonadExcept (Fault DstError) m] (z : ℤ) : m ℤ :=
  if -2 ^ 31 ≤ z ∧ z < 2 ^ 31 then pure z else throw .panic

theorem i32_of_fits {m : Type → Type} [Monad m] [MonadExcept (Fault DstError) m] {z : ℤ} (hlo : -2 ^ 31 ≤ z) (hhi : z < 2 ^ 31) :
    (i32 z : m ℤ) = pure z := if_pos ⟨hlo, hhi⟩

/-- `read_uncoded_coeff` (decoder.rs:917). -/
def readUncodedCoeff (coeffBits : ℕ) (signed : Bool) (offset : ℤ) : Parse ℤ := do
  if signed then readSigned coeffBits
  else
    let v ← readBits coeffBits
    i32 (v + offset)

/-- `validate_coeff` (decoder.rs:930). -/
def validateCoeff (coeff : ℤ) (coeffBits : ℕ) (signed : Bool) (offset : ℤ) : Outcome DstError Unit :=
  if signed then
    let min : ℤ := -2 ^ (coeffBits - 1)
    let max : ℤ := 2 ^ (coeffBits - 1) - 1
    if coeff < min ∨ max < coeff then fail (.malformedFrame "signed coefficient out of range") else pure ()
  else
    let max : ℤ := offset + 2 ^ coeffBits - 1
    if coeff < offset ∨ max < coeff then fail (.invalidProbabilityTable "probability coefficient out of range")
    else pure ()

/-- The zeros of a Rice code; the count starts at `n` and must stay within a million. -/
def readRicePrefix (n : ℕ) : Parse ℕ := do
  if ← readBit then return n
  else if _ : 1000000 < n + 1 then fail (.malformedFrame "runaway Rice code")
  else readRicePrefix (n + 1)
termination_by 1000000 - n

/-- `get_sr_golomb_dst` (decoder.rs:956). -/
def getSrGolombDst (k : ℕ) : Parse ℤ := do
  if 30 < k then fail (.malformedFrame "Rice code width too large")
  else
    let zeros ← readRicePrefix 0
    let low ← readBits k
    -- a shift that drops bits counts as an overflow too
    let high ← i32 ((zeros <<< k : ℕ) : ℤ)
    let v ← i32 (high + low)
    if v ≠ 0 then
      if ← readBit then i32 (-v) else return v
    else return v

def setCoeff (table : Table) (element idx : ℕ) (c : ℤ) : Parse Table := do
  return { table with coeff := ← assign2 table.coeff element idx c }

/-- The coefficients that are stored as they are. -/
def readUncodedCoeffs (table : Table) (element count coeffBits : ℕ) (signed : Bool) (offset : ℤ) : Parse Table :=
  forRange 0 count table fun table idx => do
    let c ← readUncodedCoeff coeffBits signed offset
    setCoeff table element idx c

/-- The coefficients that are stored as the error of a prediction from the ones before (decoder.rs:867). -/
def readPredictedCoeffs (table : Table) (codePredCoeff : List (List ℤ)) (element length coeffBits : ℕ) (signed : Bool)
    (offset : ℤ) : Parse Table := do
  let method ← readBits 2
  if codePredCoeff.length ≤ method then fail (.malformedFrame "invalid coefficient predictor")
  else
    let warmup := method + 1
    if length ≤ warmup then fail (.malformedFrame "coefficient predictor exceeds table length")
    else
      let table ← readUncodedCoeffs table element warmup coeffBits signed offset
      let lsbSize ← readBits 3
      forRange warmup length table fun table idx => do
        let predicted ← forRange 0 warmup (0 : ℤ) fun predicted tap => do
          let product ← i32 ((← index2 codePredCoeff method tap) * (← index2 table.coeff element (idx - tap - 1)))
          i32 (predicted + product)
        let coeff ← getSrGolombDst lsbSize
        let coeff ← if 0 ≤ predicted then do i32 (coeff - (← i32 (predicted + 4)) / 8)
          else do i32 (coeff + (← i32 ((← i32 (-predicted)) + 3)) / 8)
        validateCoeff coeff coeffBits signed offset
        setCoeff table element idx coeff

/-- One element of `read_table` (decoder.rs:848). -/
def readTableElement (codePredCoeff : List (List ℤ)) (lengthBits coeffBits : ℕ) (signed : Bool) (offset : ℤ)
    (table : Table) (element : ℕ) : Parse Table := do
  let length := (← readBits lengthBits) + 1
  if maxTableLen < length then
    fail (if signed then .malformedFrame "filter table length too large"
      else .invalidProbabilityTable "probability table length too large")
  else
    let table := { table with length := ← assign table.length element length }
    let coded ← readBit
    let table ←
      if coded then readPredictedCoeffs table codePredCoeff element length coeffBits signed offset
      else readUncodedCoeffs table element length coeffBits signed offset
    if !signed then
      forRange 0 length () fun _ idx => do
        let c ← index2 table.coeff element idx
        if ¬ (1 ≤ c ∧ c ≤ 128) then fail (.invalidProbabilityTable "probability coefficient out of range") else pure ()
    forRange length maxTableLen table fun table idx => setCoeff table element idx 0

/-- `read_table` (decoder.rs:835). -/
def readTable (table : Table) (codePredCoeff : List (List ℤ)) (lengthBits coeffBits : ℕ) (signed : Bool) (offset : ℤ) :
    Parse Table := do
  if table.elements = 0 ∨ maxElements < table.elements then fail (.invalidMapping "invalid table element count")
  else forRange 0 table.elements table (readTableElement codePredCoeff lengthBits coeffBits signed offset)

/-! ## `CompressedSyntax` (decoder.rs:697) -/

structure CompressedSyntax where
  filterSegments : SegmentData
  probabilitySegments : SegmentData
  filterTables : Table
  probabilityTables : Table
  halfProbability : List Bool
  halfProbabilityBits : List ℕ

/-- The half-probability range of a channel is the length of its first filter. -/
def readHalfProbabilityBits (filterSegments : SegmentData) (filterTables : Table) (half : List ℕ) (ch : ℕ) :
    Outcome DstError (List ℕ) := do
  let table ← index2 filterSegments.tableForSegment ch 0
  if filterTables.elements ≤ table then
    fail (.invalidMapping "half-probability filter table reference is invalid")
  else
    assign half ch (← index filterTables.length table)

/-- `CompressedSyntax::read` (decoder.rs:707). -/
def CompressedSyntax.read (channels frameBytesPerChannel : ℕ) : Parse CompressedSyntax := do
  let probabilitySegmentsSameAsFilter ← readBit
  let (filterSegments, _) ← SegmentData.read channels frameBytesPerChannel maxFilterSegments minFilterSegmentBits
  let probabilitySegments ←
    if probabilitySegmentsSameAsFilter then
      liftM (SegmentData.copyFromFilterForProbability filterSegments channels)
    else do
      let (segments, _) ←
        SegmentData.read channels frameBytesPerChannel maxProbabilitySegments minProbabilitySegmentBits
      pure segments
  let probabilityMapSameAsFilter ← readBit
  let (filterSegments, filterTableCount) ← readTableMappingData channels (2 * channels) filterSegments
  let (probabilitySegments, probabilityTableCount) ←
    if probabilityMapSameAsFilter then do
      let segments ← liftM (probabilitySegments.copyMappingFromFilter filterSegments channels)
      pure (segments, filterTableCount)
    else readTableMappingData channels (2 * channels) probabilitySegments
  let halfProbability ← forRange 0 (min channels maxChannels) (List.replicate maxChannels false) fun half ch => do
    assign half ch (← readBit)
  let filterTables ← readTable { Table.default with elements := filterTableCount } fsetsCodePredCoeff 7 9 true 0
  let probabilityTables ←
    readTable { Table.default with elements := probabilityTableCount } probsCodePredCoeff 6 7 false 1
  let halfProbabilityBits ← liftM (forRange 0 channels (List.replicate maxChannels 0)
    (readHalfProbabilityBits filterSegments filterTables))
  return { filterSegments, probabilitySegments, filterTables, probabilityTables, halfProbability, halfProbabilityBits }

end Dst
