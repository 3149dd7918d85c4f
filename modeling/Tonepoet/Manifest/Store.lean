import Tonepoet.Manifest.Records

/-!
# Reading and writing a manifest (pipeline/manifest.rs:352-900)

The checks that a writer and a reader make are the same; what differs is that a reader makes them on what was stored. Files are what is
found under a path, and neither reading nor writing one fails.
-/

namespace Manifest

open Rust Fingerprint

variable {ρ : Type}

abbrev Bytes := List UInt8

/-- `if !condition { return Err(error) }`. -/
def require (condition : Prop) [Decidable condition] (error : ManifestError) : Except ManifestError Unit :=
  if condition then .ok () else .error error

def requireAuthority (condition : Prop) [Decidable condition] (reason : String) : Except ManifestError Unit :=
  require condition (.invalidAuthority reason)

/-! ## The checks -/

/-- `validate_album_relative_output_path` (manifest.rs:927). -/
def validateAlbumRelativeOutputPath (outputPath : PathBuf) : Except ManifestError PathBuf := do
  require (¬ isAbsolute outputPath) (.outputPathNotRelative outputPath)
  require (∀ c ∈ outputPath, c ≠ .parentDir ∧ c ≠ .rootDir) (.outputPathEscapesAlbum outputPath)
  let clean := outputPath.filter (· ≠ .curDir)
  require (clean ≠ []) .emptyOutputPath
  return clean

theorem schema_separatorFree : '=' ∉ "schema".toList := by decide

/-- `settings_snapshot_fingerprint_v2` (fingerprint.rs:2298), with the digest of what the writer was fed. `push_pipeline_settings_v2` pushes
the fields of `push_pipeline_settings`. -/
def settingsSnapshotFingerprintV2 (sha256 : Bytes → Sha256Digest) (settings : PipelineSettings) : Sha256Digest :=
  sha256 (fed (field "schema".toList "tonepoet-settings-snapshot/v2".toList schema_separatorFree :: pushPipelineSettings settings))

/-- The policies from v3 on, whose tracks bind a second digest. -/
def bindsEvidenceV2 : DsdReferencePolicyVersion → Bool
  | .soxNg14801V1 | .soxNg14801V2 => false
  | _ => true

/-- The policies from v7 on, whose tracks bind a third. -/
def bindsEvidenceV3 : DsdReferencePolicyVersion → Bool
  | .soxNg14801V1 | .soxNg14801V2 | .soxNg14801V3 | .soxNg14801V4 | .soxNg14801V5 | .soxNg14801V6 => false
  | _ => true

/-- One track of `validate_manifest_authority` under the legacy route. -/
def validateLegacyTrack (settingsFingerprintV1 : Sha256Digest) (track : ConversionManifestTrack) : Except ManifestError Unit := do
  match track.executionIdentity with
  | .legacyPipelineV1 trackFingerprint _ _ =>
    requireAuthority (trackFingerprint = settingsFingerprintV1) "legacy route contains a nonmatching track identity"
  | .nativeDsdV2 .. => .error (.invalidAuthority "legacy route contains a nonmatching track identity")
  requireAuthority (track.sourceContentSha256.isNone ∧ track.sourceProbeDigest.isNone ∧ track.originalDsdSourceKind.isNone ∧
    track.dsdFrontEnd.isNone ∧ track.canonicalMaterializationSha256.isNone) "legacy route contains native-only source authority"

/-- What an incomplete track of a policy is told. -/
def missingEvidence (policy : DsdReferencePolicyVersion) : String :=
  if bindsEvidenceV2 policy then
    if bindsEvidenceV3 policy then "Reference v7+ track is missing v1, v2, or v3 executed verification authority"
    else "Reference v3+ track is missing v1 or v2 executed verification authority"
  else "Reference track is missing executed verification authority"

/-- One track of `validate_manifest_authority` under the Reference route. -/
def validateReferenceTrack (policy : DsdReferencePolicyVersion) (track : ConversionManifestTrack) : Except ManifestError Unit := do
  requireAuthority (track.sourceContentSha256.isSome ∧ track.sourceProbeDigest.isSome ∧ track.originalDsdSourceKind.isSome ∧
    track.dsdFrontEnd.isSome ∧ track.outputHash.isSome) "Reference track is missing required native authority"
  match track.dsdFrontEnd with
  | some .nativeUncompressed =>
    requireAuthority track.canonicalMaterializationSha256.isNone "native Reference front-end must not claim a decoded materialization"
  | _ =>
    requireAuthority track.canonicalMaterializationSha256.isSome
      "decoded Reference front-end is missing canonical materialization authority"
  match track.executionIdentity with
  | .nativeDsdV2 _ _ _ evidenceV1 evidenceV2 evidenceV3 =>
    requireAuthority (evidenceV1 ≠ zeroSha256Digest ∧ (¬ bindsEvidenceV2 policy ∨ evidenceV2 ≠ zeroSha256Digest) ∧
      (¬ bindsEvidenceV3 policy ∨ evidenceV3 ≠ zeroSha256Digest)) (missingEvidence policy)
  | .legacyPipelineV1 .. => .error (.invalidAuthority "Reference route contains a legacy track identity")
  match track.originalDsdSourceKind with
  | some (.sacdTrack _ selection) =>
    requireAuthority (selection.frameCount ≠ 0 ∧ selection.channels ≠ 0 ∧ selection.tocDigest ≠ zeroSha256Digest)
      "SACD Reference identity has an incomplete track selection"
  | _ => .ok ()

/-- The Reference route after its settings snapshot: the settings' pathway and policy, the target and the tracks. -/
def validateReferenceRoute (resolvedOutputTarget : ResolvedOutputTarget) (policy : DsdReferencePolicyVersion)
    (qualificationCandidateManifestDigest : Sha256Digest) (fromDsd : DsdSourceSettings) (tracks : List ConversionManifestTrack) :
    Except ManifestError Unit := do
  requireAuthority (fromDsd.pathway = .reference ∧ fromDsd.referencePolicy = policy)
    "Reference route settings do not match the qualified Reference policy"
  requireAuthority resolvedOutputTarget.isP0ReferenceLossless "Reference route target is not a P0 lossless target"
  tracks.forM (validateReferenceTrack policy)
  requireAuthority (qualificationCandidateManifestDigest ≠ zeroSha256Digest) "Reference qualification digest is empty"

/-- `validate_manifest_authority` (manifest.rs:600). -/
def validateManifestAuthority (sha256 : Bytes → Sha256Digest) (manifest : ConversionManifest ρ) : Except ManifestError Unit := do
  requireAuthority manifest.programmeIdentity.isNone "programme identity is reserved and unavailable in P0"
  match manifest.routeIdentity with
  | .legacyPipelineV1 settingsFingerprintV1 => manifest.tracks.forM (validateLegacyTrack settingsFingerprintV1)
  | .dsdReferenceV2 routeSettingsSnapshot resolvedOutputTarget policy qualificationCandidateManifestDigest =>
    requireAuthority (manifest.totalTracks ≠ 0) "Reference manifest must contain at least one track"
    requireAuthority (routeSettingsSnapshot = settingsSnapshotFingerprintV2 sha256 manifest.settings.fingerprinted)
      "Reference route settings snapshot does not match manifest settings"
    validateReferenceRoute resolvedOutputTarget policy qualificationCandidateManifestDigest manifest.settings.fingerprinted.dsd.fromDsd
      manifest.tracks
  | .dsdManualV2 .. => .error (.invalidAuthority "Manual DSD manifest authority is reserved and unavailable in P0")

def manifestVersion : ℕ := 2

/-- `validate_manifest_for_album` (manifest.rs:573), as every caller makes it: the album directory is checked. -/
def validateManifestForAlbum (sha256 : Bytes → Sha256Digest) (actualAlbumDir : PathBuf) (manifest : ConversionManifest ρ) :
    Except ManifestError Unit := do
  require (manifest.manifestVersion = manifestVersion) (.unsupportedVersion manifest.manifestVersion manifestVersion)
  require (manifest.totalTracks = manifest.tracks.length) (.trackCountMismatch manifest.totalTracks manifest.tracks.length)
  require (SamePathLexical manifest.albumDir actualAlbumDir) (.albumDirMismatch manifest.albumDir actualAlbumDir)
  manifest.tracks.forM fun track => do
    let _ ← validateAlbumRelativeOutputPath track.outputPath
    return ()
  validateManifestAuthority sha256 manifest

/-! ## The stored form -/

/-- `serde_json` on a manifest: the version a body gives, and what is read of it in the layout of either version. -/
structure SerdeJson (ρ : Type) where
  toVecPretty : ConversionManifest ρ → Except String Bytes
  versionOf : Bytes → Except String ℕ
  fromValueV2 : Bytes → Except String (ConversionManifest ρ)
  fromValueV1 : Bytes → Except String (ConversionManifestV1Wire ρ)

/-- A track of a version-1 body (manifest.rs:443). -/
def ConversionManifestTrackV1Wire.upgrade (track : ConversionManifestTrackV1Wire) : Except String ConversionManifestTrack := do
  let outputHash ← track.outputHash.mapM Sha256Digest.ofHex
  return {
    sourcePath := track.sourcePath
    sourceSize := track.sourceSize
    sourceMtimeSecs := track.sourceMtimeSecs
    sourceAudioMd5 := track.sourceAudioMd5
    sourceContentSha256 := none
    sourceProbeDigest := none
    originalDsdSourceKind := none
    dsdFrontEnd := none
    canonicalMaterializationSha256 := none
    trackIdentity := track.trackIdentity
    executionIdentity := .legacyPipelineV1 track.settingsFingerprint track.plannerVersion track.plannedCommandHash
    outputPath := track.outputPath
    outputSize := track.outputSize
    outputHash := outputHash
    validationStatus := track.validationStatus
    publishTimestamp := track.publishTimestamp }

/-- `ConversionManifest::deserialize` (manifest.rs:402). -/
def deserialize (json : SerdeJson ρ) (bytes : Bytes) : Except String (ConversionManifest ρ) := do
  let version ← json.versionOf bytes
  if version = 2 then do
    let wire ← json.fromValueV2 bytes
    if wire.manifestVersion ≠ 2 then .error "manifest_version must be exactly 2" else return { wire with manifestVersion := 2 }
  else if version = 1 then do
    let wire ← json.fromValueV1 bytes
    if wire.manifestVersion ≠ 1 then .error "manifest_version must be exactly 1"
    else do
      let tracks ← wire.tracks.mapM ConversionManifestTrackV1Wire.upgrade
      return {
        manifestVersion := 2
        albumDir := wire.albumDir
        totalTracks := wire.totalTracks
        settings := wire.settings
        routeIdentity := .legacyPipelineV1 wire.settingsFingerprint
        programmeIdentity := none
        tracks := tracks }
  else .error s!"unsupported manifest version {version}; expected 1 or 2"

/-! ## Files -/

/-- What is found under a path. -/
abbrev Files := PathBuf → Option Bytes

/-- `read_manifest` (manifest.rs:541). -/
def readManifest (json : SerdeJson ρ) (sha256 : Bytes → Sha256Digest) (albumDir : PathBuf) (files : Files) :
    Except ManifestError (Option (ConversionManifest ρ)) :=
  match files (manifestPath albumDir) with
  | none => .ok none
  | some bytes => do
    let manifest ← (deserialize json bytes).mapError .json
    validateManifestForAlbum sha256 albumDir manifest
    return some { manifest with albumDir := albumDir }

/-- `write_manifest_file_unchecked`: the whole file is renamed into its place. -/
def writeManifestFileUnchecked (json : SerdeJson ρ) (path : PathBuf) (manifest : ConversionManifest ρ) (files : Files) :
    Except ManifestError Files := do
  let bytes ← (json.toVecPretty manifest.persisted).mapError .json
  return Function.update files path (some bytes)

/-- `write_manifest` (manifest.rs:819). -/
def writeManifest (json : SerdeJson ρ) (sha256 : Bytes → Sha256Digest) (albumDir : PathBuf) (manifest : ConversionManifest ρ)
    (files : Files) : Except ManifestError (PathBuf × Files) := do
  validateManifestForAlbum sha256 albumDir manifest
  let files ← writeManifestFileUnchecked json (manifestPath albumDir) manifest files
  return (manifestPath albumDir, files)

/-- `write_manifest_for_publish` (manifest.rs:826). -/
def writeManifestForPublish (json : SerdeJson ρ) (sha256 : Bytes → Sha256Digest) (tempAlbumDir finalAlbumDir : PathBuf)
    (manifest : ConversionManifest ρ) (files : Files) : Except ManifestError (PathBuf × Files) := do
  validateManifestForAlbum sha256 finalAlbumDir manifest
  let files ← writeManifestFileUnchecked json (manifestPath tempAlbumDir) manifest files
  return (manifestPath finalAlbumDir, files)

/-- The album rename: everything under one directory stands under the other. -/
def renameAlbum (tempAlbumDir finalAlbumDir : PathBuf) (files : Files) : Files := fun path =>
  if finalAlbumDir <+: path then files (tempAlbumDir ++ path.drop finalAlbumDir.length)
  else if tempAlbumDir <+: path then none
  else files path

end Manifest
