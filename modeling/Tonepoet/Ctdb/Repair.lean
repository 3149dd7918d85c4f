import Tonepoet.Ctdb.ColumnDecoding

/-!
# `ctdb_cuetools_repair.rs`: repairing an image from a syndrome blob

The downloaded blob is the syndrome matrix of the undamaged image. Each column's difference to the
image's own matrix is decoded, the corrections are applied to the buffer, and the matrix is checked
again before the buffer is kept.
-/

namespace Ctdb

open Rust

inductive RepairError where
  | uncorrectable (column errorsFound maxCorrectable : ℕ)
  | invalidParity (msg : String)
  | invalidInput (msg : String)
  deriving DecidableEq, Repr

/-- `From<CtdbRsError>` (ctdb_rs/mod.rs:962). -/
def RepairError.ofCtdbRsError : CtdbRsError → RepairError
  | .invalidParityLength got need => .invalidParity (CtdbRsError.invalidParityLength got need).message
  | .invalidParityShape stride npar => .invalidParity (CtdbRsError.invalidParityShape stride npar).message
  | other => .invalidInput other.message

/-- What the repair reads of a `CtdbEntry`. -/
structure CtdbEntry where
  npar : UInt32
  stride : ℕ
  parity : Option String
  syndrome : Option String

inductive RsVerifySource where
  | syndrome
  | inlineParity
  deriving DecidableEq, Repr

structure CuetoolsRepairCorrection where
  row : ℕ
  column : ℕ
  magnitude : UInt16
  audioIndex : ℕ
  deriving DecidableEq, Repr

structure CuetoolsRepairOutcome where
  correctedSamples : ℕ
  errorPositions : List (ℕ × ℕ)
  corrections : List CuetoolsRepairCorrection
  verifiedAfter : Bool
  deriving DecidableEq, Repr

/-! ## Serialization -/

/-- `u16::from_le_bytes`. -/
def u16FromLeBytes (lo hi : UInt8) : UInt16 := lo.toUInt16 ||| (hi.toUInt16 <<< 8)

/-- `parity_to_bytes` (ctdb_rs/mod.rs:311). The two loops write the bytes of `parity[j][i]` at
    `(j + i * stride) * 2`, each byte once. -/
def parityToBytes (parity : List (List UInt16)) (stride npar : ℕ) : List UInt8 :=
  (List.range (stride * npar * 2)).map fun offset =>
    let k := offset / 2
    let word := (parity.getD (k % stride) []).getD (k / stride) 0
    if offset % 2 = 0 then word.toUInt8 else (word >>> 8).toUInt8

/-- `cuetools_bytes_to_syndrome_matrix` (ctdb.rs:614). -/
def cuetoolsBytesToSyndromeMatrix (bytes : List UInt8) (stride npar : ℕ) : Option (List (List UInt16)) := do
  let required ← checkedMul (← checkedMul stride npar) 2
  if bytes.length < required then none
  else some ((List.range stride).map fun j => (List.range npar).map fun i =>
    let k := (j + i * stride) * 2
    u16FromLeBytes (bytes.getD k 0) (bytes.getD (k + 1) 0))

variable (gf : Galois16)

/-- `cuetools_legacy_inline_parity_to_syndrome_row` (ctdb.rs:744). -/
def cuetoolsLegacyInlineParityToSyndromeRow (bytes : List UInt8) : Option (List UInt16) :=
  let npar := 8
  if bytes.length < npar * 2 then none
  else
    let parityRow := (List.range npar).map fun i => u16FromLeBytes (bytes.getD (i * 2) 0) (bytes.getD (i * 2 + 1) 0)
    cuetoolsParityRowToSyndromeRow gf parityRow npar npar

/-- `as_deref().filter(|s| !s.is_empty())`. -/
def nonEmpty (s : Option String) : Option String := s.filter fun s => !s.isEmpty

/-- `decode_entry_row_cuetools` (ctdb.rs:765). The standard base64 engine is the parameter. -/
def decodeEntryRowCuetools (decodeBase64 : String → Option (List UInt8)) (entry : CtdbEntry) :
    Option (List UInt16 × ℕ × RsVerifySource) :=
  match nonEmpty entry.syndrome with
  | some syndromeB64 => do
    let npar := min entry.npar.toNat cuetoolsMaxNpar
    if npar = 0 then none
    else do
      let bytes ← decodeBase64 syndromeB64
      let matrix ← cuetoolsBytesToSyndromeMatrix bytes 1 npar
      some (← matrix[0]?, npar, .syndrome)
  | none =>
    match nonEmpty entry.parity with
    | some parityB64 => do
      let npar := 8
      let bytes ← decodeBase64 parityB64
      let row ← cuetoolsLegacyInlineParityToSyndromeRow gf bytes
      some (row, npar, .inlineParity)
    | none => none

/-- `{:04x}`. -/
def hex4 (w : UInt16) : String :=
  let digits := Nat.toDigits 16 w.toNat
  String.ofList (List.replicate (4 - digits.length) '0' ++ digits)

/-- `{:+}`. -/
def signed (i : ℤ) : String := if i < 0 then s!"{i}" else s!"+{i}"

/-- One symbol of the blob's first row against the entry's. -/
def compareSymbol (matrix : List (List UInt16)) (entryRow : List UInt16) (i : ℕ) : Outcome RepairError Unit := do
  let symbol ← index2 matrix 0 i
  let expected ← index entryRow i
  if symbol ≠ expected then
    fail (.invalidParity s!"hasparity row 0 symbol {i} = {hex4 symbol}, entry row = {hex4 expected}")
  else pure ()

/-- The comparison with the row the entry carries, where it carries one. -/
def compareEntryRow (decodeBase64 : String → Option (List UInt8)) (entry : CtdbEntry) (matrix : List (List UInt16)) (npar : ℕ) :
    Outcome RepairError Unit :=
  match decodeEntryRowCuetools gf decodeBase64 entry with
  | some (entryRow, entryNpar, _) =>
    forRange 0 (min (min npar entryNpar) entryRow.length) () fun _ i => compareSymbol matrix entryRow i
  | none => pure ()

/-- `cuetools_decode_hasparity_syndrome_matrix` (ctdb_cuetools_repair.rs:126). -/
def cuetoolsDecodeHasparitySyndromeMatrix (decodeBase64 : String → Option (List UInt8)) (blobBytes : List UInt8)
    (entry : CtdbEntry) (ctx : CuetoolsSyndromeContext) (npar : ℕ) : Outcome RepairError (List (List UInt16)) :=
  if entry.stride ≠ 0 ∧ entry.stride ≠ ctx.stride then
    fail (.invalidParity s!"CTDB entry stride {entry.stride} does not match audio stride {ctx.stride}")
  else do
    let matrix ← okOr (.invalidParity (s!"hasparity blob has {blobBytes.length} bytes; " ++
      s!"need at least {ctx.stride * npar * 2} bytes for stride {ctx.stride} npar {npar}"))
      (cuetoolsBytesToSyndromeMatrix blobBytes ctx.stride npar)
    compareEntryRow gf decodeBase64 entry matrix npar
    pure matrix

/-- `cuetools_syndrome_matrices_equal` (ctdb_cuetools_repair.rs:171). -/
def cuetoolsSyndromeMatricesEqual (lhs rhs : List (List UInt16)) (npar : ℕ) : Bool :=
  lhs.length == rhs.length && (lhs.zip rhs).all fun (a, b) =>
    decide (a.length ≥ npar) && decide (b.length ≥ npar) && a.take npar == b.take npar

/-! ## Locating the errors -/

/-- `cuetools_repair_audio_index` (ctdb_cuetools_repair.rs:197). -/
def cuetoolsRepairAudioIndex (row column : ℕ) (actualOffset : ℤ) (audioLen : ℕ) : Option ℕ :=
  let idx := 2 * (stride : ℤ) + row * stride + column - 2 * actualOffset
  if idx < 0 ∨ idx.toNat ≥ audioLen then none else some idx.toNat

/-- A located error as a correction of the image. -/
def toCorrection (actualOffset : ℤ) (audioLen column : ℕ) (correction : LocatedError) :
    Outcome RepairError CuetoolsRepairCorrection := do
  let audioIndex ← okOr (.invalidInput
    s!"repair correction row {correction.row} column {column} falls outside padded audio at offset {signed actualOffset}")
    (cuetoolsRepairAudioIndex correction.row column actualOffset audioLen)
  pure ⟨correction.row, column, correction.magnitude, audioIndex⟩

/-- The body of the column loop. -/
def repairColumn (ourSyndrome blobSyndrome : List (List UInt16)) (npar stridecount : ℕ) (actualOffset : ℤ) (audioLen column : ℕ) :
    Outcome RepairError (List CuetoolsRepairCorrection) := do
  let maxCorrectable := npar / 2
  let lhs ← okOr (.invalidInput s!"computed syndrome missing column {column}") ourSyndrome[column]?
  let rhs ← okOr (.invalidParity s!"downloaded syndrome missing column {column}") blobSyndrome[column]?
  if lhs.length < npar ∨ rhs.length < npar then
    fail (.invalidParity s!"syndrome column {column} is shorter than npar {npar}")
  else
    let delta := (List.range npar).map fun i => lhs.getD i 0 ^^^ rhs.getD i 0
    if allZero delta then pure []
    else do
      let (sigma, errorsFound) ← okOr (.uncorrectable column 0 maxCorrectable) (berlekampMassey gf delta npar)
      let uncorrectable := RepairError.uncorrectable column errorsFound maxCorrectable
      if errorsFound = 0 ∨ errorsFound > maxCorrectable then fail uncorrectable
      else do
        let positions ← okOr uncorrectable (chienSearch gf sigma errorsFound stridecount)
        if positions.length ≠ errorsFound then fail uncorrectable
        else do
          let magnitudes ← okOr uncorrectable (forney gf delta sigma positions npar stridecount)
          let located := List.zipWith LocatedError.mk positions magnitudes
          let residual ← okOr uncorrectable (residualAfterCorrection gf delta located npar stridecount)
          if ¬ allZero residual then fail uncorrectable
          else located.mapM (toCorrection actualOffset audioLen column)

/-- What is known once every column is decoded. -/
structure RepairPlan where
  npar : ℕ
  ourSyndrome : List (List UInt16)
  blobSyndrome : List (List UInt16)
  corrections : List CuetoolsRepairCorrection

/-- `validate_npar(npar).map_err(RepairError::from)?`. -/
def checkNpar (npar : ℕ) : Outcome RepairError Unit :=
  match validateNpar npar with
  | .error e => fail (.ofCtdbRsError e)
  | .ok () => pure ()

/-- The loop over the columns. -/
def locateColumns (ourSyndrome blobSyndrome : List (List UInt16)) (npar stridecount : ℕ) (actualOffset : ℤ)
    (audioLen columns : ℕ) : Outcome RepairError (List CuetoolsRepairCorrection) :=
  (List.range columns).foldlM (fun all column => do
    let located ← repairColumn gf ourSyndrome blobSyndrome npar stridecount actualOffset audioLen column
    pure (all ++ located)) []

/-- The part of `repair_disc_via_rs_blocking` before the buffer is written to. -/
def locateCorrections (decodeBase64 : String → Option (List UInt8)) (audio : List Int16) (blobBytes : List UInt8)
    (entry : CtdbEntry) (actualOffset : ℤ) : Outcome RepairError RepairPlan := do
  let npar := min entry.npar.toNat cuetoolsMaxNpar
  checkNpar npar
  let ctx ← okOr (.invalidInput "audio is too short for CTDB repair context") (cuetoolsBuildSyndromeContext audio)
  let blobSyndrome ← cuetoolsDecodeHasparitySyndromeMatrix gf decodeBase64 blobBytes entry ctx npar
  let parity16 ← okOr (.invalidInput "failed to compute CTDB parity workspace") (computeAudioParity16 audio)
  let ourSyndrome ← okOr (.invalidInput "failed to compute CUETools syndrome matrix")
    (cuetoolsGetSyndromeMatrix gf parity16 ctx npar (-actualOffset))
  let allCorrections ← locateColumns gf ourSyndrome blobSyndrome npar ctx.stridecount actualOffset audio.length ctx.stride
  pure ⟨npar, ourSyndrome, blobSyndrome, allCorrections⟩

/-! ## Applying the corrections -/

/-- The loop that writes the corrections, keeping the old values. -/
def applyCorrections (audio : List Int16) (corrections : List CuetoolsRepairCorrection) :
    Outcome RepairError (List (ℕ × Int16) × List Int16) :=
  corrections.foldlM (fun (oldValues, audio) correction => do
    let old ← index audio correction.audioIndex
    let fixed := old.toUInt16 ^^^ correction.magnitude
    let audio ← assign audio correction.audioIndex fixed.toInt16
    pure (oldValues ++ [(correction.audioIndex, old)], audio)) ([], audio)

/-- The loop that puts the old values back. -/
def revertCorrections (audio : List Int16) (oldValues : List (ℕ × Int16)) : Outcome RepairError (List Int16) :=
  oldValues.foldlM (fun audio (idx, old) => assign audio idx old) audio

/-- `cuetools_repaired_audio_matches_blob` (ctdb_cuetools_repair.rs:216). -/
def cuetoolsRepairedAudioMatchesBlob (audio : List Int16) (blobSyndrome : List (List UInt16)) (npar : ℕ) (actualOffset : ℤ) :
    Bool :=
  match cuetoolsBuildSyndromeContext audio, computeAudioParity16 audio with
  | some ctx, some parity16 =>
    match cuetoolsGetSyndromeMatrix gf parity16 ctx npar (-actualOffset) with
    | some ourSyndrome => cuetoolsSyndromeMatricesEqual ourSyndrome blobSyndrome npar
    | none => false
  | _, _ => false

/-- The error of a repair that did not verify. -/
def verificationFailed : RepairError :=
  .invalidInput "post-repair syndrome verification failed; corrections reverted"

/-- The part of `repair_disc_via_rs_blocking` that writes to the buffer, with the buffer it leaves. -/
def commitCorrections (plan : RepairPlan) (actualOffset : ℤ) (audio : List Int16) :
    Outcome RepairError CuetoolsRepairOutcome × List Int16 :=
  let allCorrections := plan.corrections.mergeSort fun a b => a.audioIndex ≤ b.audioIndex
  let initiallyEqual := cuetoolsSyndromeMatricesEqual plan.ourSyndrome plan.blobSyndrome plan.npar
  match applyCorrections audio allCorrections with
  | .error f => (.error f, audio)
  | .ok (oldValues, fixed) =>
    let verifiedAfter :=
      if allCorrections.isEmpty then initiallyEqual
      else cuetoolsRepairedAudioMatchesBlob gf fixed plan.blobSyndrome plan.npar actualOffset
    if ¬ verifiedAfter then
      match revertCorrections fixed oldValues with
      | .error f => (.error f, fixed)
      | .ok reverted => (.error (.err verificationFailed), reverted)
    else
      (.ok { correctedSamples := allCorrections.length
             errorPositions := allCorrections.map fun c => (c.row, c.column)
             corrections := allCorrections
             verifiedAfter }, fixed)

/-- `repair_disc_via_rs_blocking` (ctdb_cuetools_repair.rs:240): the result and the buffer left behind. -/
def repairDiscViaRsBlocking (decodeBase64 : String → Option (List UInt8)) (audio : List Int16) (blobBytes : List UInt8)
    (entry : CtdbEntry) (actualOffset : ℤ) : Outcome RepairError CuetoolsRepairOutcome × List Int16 :=
  let gf := Galois16.new
  match locateCorrections gf decodeBase64 audio blobBytes entry actualOffset with
  | .error f => (.error f, audio)
  | .ok plan => commitCorrections gf plan actualOffset audio

end Ctdb
