import Tonepoet.Fingerprint.Settings

/-!
# The records of a conversion manifest (pipeline/manifest.rs:18-540)

What an album's manifest holds, and what its errors say. Times are in nanoseconds. Settings that no fingerprint reads are one parameter.
-/

namespace Manifest

open Rust Fingerprint

/-! ## Paths -/

inductive Component
  | rootDir
  | curDir
  | parentDir
  | normal (part : Str)
  deriving DecidableEq

/-- A path is its components. -/
abbrev PathBuf := List Component

def isAbsolute (path : PathBuf) : Bool := path.head? = some .rootDir

/-- `PathBuf::pop`: nothing is above the root. -/
def pop (path : PathBuf) : PathBuf := if path.getLast? = some .rootDir then path else path.dropLast

/-- One component of `normalize_lexical`. -/
def pushLexical (out : PathBuf) : Component → PathBuf
  | .curDir => out
  | .parentDir => pop out
  | .rootDir => [.rootDir]
  | .normal part => out ++ [.normal part]

/-- `normalize_lexical` (manifest.rs:1030). -/
def normalizeLexical (path : PathBuf) : PathBuf := path.foldl pushLexical []

/-- `same_path_lexical`. -/
def SamePathLexical (left right : PathBuf) : Prop := normalizeLexical left = normalizeLexical right

instance (left right : PathBuf) : Decidable (SamePathLexical left right) := inferInstanceAs (Decidable (_ = _))

def manifestFileName : Str := ".tonepoet-manifest.json".toList

/-- `manifest_path`. -/
def manifestPath (albumDir : PathBuf) : PathBuf := albumDir ++ [.normal manifestFileName]

/-! ## Digests -/

structure Sha256Digest where
  bytes : Vector UInt8 32
  deriving DecidableEq

def zeroSha256Digest : Sha256Digest := ⟨Vector.replicate 32 0⟩

/-- `Sha256Digest::from_hex` (dsd_reference.rs:257). -/
def Sha256Digest.ofHex (value : Str) : Except String Sha256Digest :=
  if value.length ≠ 64 ∨ ¬ value.all isAsciiHexdigit then .error "SHA-256 digest must contain exactly 64 hexadecimal characters"
  else .ok ⟨Vector.ofFn fun i => UInt8.ofNat (fromHex ((value.drop (2 * i)).take 2))⟩

/-! ## Sources and targets -/

inductive ResolvedOutputTarget
  | flacNative | flacOgg | flacMka | flacMkv | wavRiff | wavRf64 | wavW64 | wavMka | wavMkv | aiffNative | aiffMka | aiffMkv
  | wavPackNative | wavPackMka | wavPackMkv | mp3Native | mp3Mka | mp3Mkv | aacM4a | aacMp4 | aacM4b | aacMka | aacMkv
  | opusNative | opusWebM | opusWebA | opusMka | opusMkv | alacM4a | alacMp4 | dsfNative | dsfAsDff | dffNative
  | dtsNative | dtsMka | dtsMkv | dtsMp4 | ac3Native | ac3Mka | ac3Mkv | ac3Mp4 | lpcmRiff | lpcmAiff

/-- `is_p0_reference_lossless` (dsd_reference.rs:577). -/
def ResolvedOutputTarget.isP0ReferenceLossless : ResolvedOutputTarget → Bool
  | .flacNative | .wavRiff | .wavRf64 | .wavW64 | .aiffNative | .wavPackNative | .alacM4a => true
  | _ => false

inductive SacdFrameEncoding | dsd | dst

inductive SacdAreaKind | stereo | multichannel

structure SacdTrackSelection where
  area : SacdAreaKind
  trackIndexZeroBased : ℕ
  startFrame : ℕ
  frameCount : ℕ
  channels : ℕ
  tocDigest : Sha256Digest

inductive DsdSourceKind
  | dsfUncompressed
  | dsdiffUncompressed
  | dsdiffDst
  | sacdTrack (frameFormat : SacdFrameEncoding) (selection : SacdTrackSelection)
  | unknownDsdContainer

inductive QualifiedDstDecoderVersion | sacdRsP0V1

inductive QualifiedSacdExtractorVersion | sacdRsP0V1

inductive DsdInputFrontEnd
  | nativeUncompressed
  | dsdiffDst (decoder : QualifiedDstDecoderVersion)
  | sacdDsd (extractor : QualifiedSacdExtractorVersion)
  | sacdDst (extractor : QualifiedSacdExtractorVersion) (decoder : QualifiedDstDecoderVersion)

deriving instance DecidableEq for Fingerprint.DsdSourcePathway
deriving instance DecidableEq for Fingerprint.DsdReferencePolicyVersion

/-! ## The manifest -/

inductive ManifestRouteIdentityV2
  | legacyPipelineV1 (settingsFingerprintV1 : Sha256Digest)
  | dsdReferenceV2 (settingsSnapshotFingerprintV2 : Sha256Digest) (resolvedOutputTarget : ResolvedOutputTarget)
      (policy : DsdReferencePolicyVersion) (qualificationCandidateManifestDigest : Sha256Digest)
  | dsdManualV2 (settingsSnapshotFingerprintV2 : Sha256Digest) (resolvedOutputTarget : ResolvedOutputTarget)
      (workflowExecutionDigest : Sha256Digest)

inductive ManifestTrackExecutionIdentityV2
  | legacyPipelineV1 (settingsFingerprintV1 : Sha256Digest) (plannerVersion plannedCommandHash : Str)
  | nativeDsdV2 (behaviorFingerprintV1 executionFingerprintV1 semanticPlanHashV1 : Sha256Digest)
      (executedEvidenceDigestV1 executedEvidenceDigestV2 executedEvidenceDigestV3 : Sha256Digest)

inductive ReferenceProgrammeGrouping | resolvedAlbumRelease

structure ProgrammeManifestIdentityV1 where
  policy : DsdReferencePolicyVersion
  groupingRule : ReferenceProgrammeGrouping
  semanticProgrammeId : Sha256Digest
  programmeDigest : Sha256Digest
  expectedMembers : ℕ
  orderedMemberContentIds : List Sha256Digest

structure TrackIdentity where
  sourceOrdinal : ℕ
  discNumber : Option ℕ
  trackNumber : Option ℕ

inductive ValidationStatus
  | passed
  | skipped
  | failed (reason : Str)

structure ConversionManifestTrack where
  sourcePath : PathBuf
  sourceSize : ℕ
  sourceMtimeSecs : ℤ
  sourceAudioMd5 : Option Str
  sourceContentSha256 : Option Sha256Digest
  sourceProbeDigest : Option Sha256Digest
  originalDsdSourceKind : Option DsdSourceKind
  dsdFrontEnd : Option DsdInputFrontEnd
  canonicalMaterializationSha256 : Option Sha256Digest
  trackIdentity : TrackIdentity
  executionIdentity : ManifestTrackExecutionIdentityV2
  outputPath : PathBuf
  outputSize : ℕ
  outputHash : Option Sha256Digest
  validationStatus : ValidationStatus
  publishTimestamp : ℤ

/-- `PipelineSettings`: what the fingerprint reads, what it does not, and the two runtime fields it does not. -/
structure ManifestSettings (ρ : Type) where
  fingerprinted : PipelineSettings
  other : ρ
  runtimeAlbumLoudestPeakDbfs : Option DbNano
  runtimeAlbumTrackCount : Option ℕ

structure ConversionManifest (ρ : Type) where
  manifestVersion : ℕ
  albumDir : PathBuf
  totalTracks : ℕ
  settings : ManifestSettings ρ
  routeIdentity : ManifestRouteIdentityV2
  programmeIdentity : Option ProgrammeManifestIdentityV1
  tracks : List ConversionManifestTrack

structure ConversionManifestTrackV1Wire where
  sourcePath : PathBuf
  sourceSize : ℕ
  sourceMtimeSecs : ℤ
  sourceAudioMd5 : Option Str
  trackIdentity : TrackIdentity
  settingsFingerprint : Sha256Digest
  plannerVersion : Str
  plannedCommandHash : Str
  outputPath : PathBuf
  outputSize : ℕ
  outputHash : Option Str
  validationStatus : ValidationStatus
  publishTimestamp : ℤ

structure ConversionManifestV1Wire (ρ : Type) where
  manifestVersion : ℕ
  albumDir : PathBuf
  totalTracks : ℕ
  settings : ManifestSettings ρ
  settingsFingerprint : Sha256Digest
  tracks : List ConversionManifestTrackV1Wire

inductive ManifestError
  | json (source : String)
  | unsupportedVersion (found expected : ℕ)
  | trackCountMismatch (totalTracks tracksLen : ℕ)
  | invalidAuthority (reason : String)
  | albumDirMismatch (manifestAlbumDir actualAlbumDir : PathBuf)
  | outputPathEscapesAlbum (path : PathBuf)
  | emptyOutputPath
  | outputPathNotRelative (path : PathBuf)

/-! ## Settings that are not stored -/

variable {ρ : Type}

/-- `DsdSettings::bind_runtime_album_gain` (settings.rs): authority for one submitted batch. -/
def ManifestSettings.bindRuntimeAlbumGain (s : ManifestSettings ρ) (gainDb : DbNano) (loudestPeakDbfs : Option DbNano) (trackCount : ℕ) :
    ManifestSettings ρ where
  fingerprinted := { s.fingerprinted with dsd := { s.fingerprinted.dsd with runtimeAlbumGainDb := some gainDb } }
  other := s.other
  runtimeAlbumLoudestPeakDbfs := loudestPeakDbfs
  runtimeAlbumTrackCount := some trackCount

/-- The settings without their `serde(skip)` fields, which are read as `None`. -/
def ManifestSettings.persisted (s : ManifestSettings ρ) : ManifestSettings ρ where
  fingerprinted :=
    { s.fingerprinted with
      dsd := { s.fingerprinted.dsd with runtimeAlbumGainDb := none }
      pcmTruePeak := { s.fingerprinted.pcmTruePeak with runtimeAlbumGainDb := none } }
  other := s.other
  runtimeAlbumLoudestPeakDbfs := none
  runtimeAlbumTrackCount := none

/-- The fields that `serde_json` is told to store. -/
def ConversionManifest.persisted (m : ConversionManifest ρ) : ConversionManifest ρ := { m with settings := m.settings.persisted }

/-! ## The default settings -/

/-- `PipelineSettings::default()` under the Reference pathway. -/
def referenceSettings : ManifestSettings Unit where
  fingerprinted :=
    { targetFormat := .flac
      targetSampleRate := .source
      targetBitDepth := .source
      resampleQuality := .ultra
      nyquistTransition := .gentle
      ditherType := .none
      ditherExplicit := false
      preferredTool := .auto
      forceEncode := false
      flac := ⟨8, false, true⟩
      mp3 := ⟨.vbr, 320, 0⟩
      aac := ⟨.lcAac, 256⟩
      opus := ⟨.auto, 192, 10⟩
      wavpack := ⟨.normal, false, 320, true⟩
      ssrc := ⟨false, false, none, none, false, none, none⟩
      soxResampler := ⟨false, none, none, false, none, none, none, none, none, none⟩
      soxrResampler := ⟨false, none, none⟩
      dsd :=
        { pcmToDsd := ⟨.clans, .order8, none, .auto, ⟨8, 262144, ⟨0x46c35000⟩, ⟨0x43fa0000⟩, ⟨0x41800000⟩, true, false⟩, .auto⟩
          fromDsd := ⟨.reference, .soxNg14801V18, .reference, .truePeakNormalize ⟨-1000000000⟩ .album .standard⟩
          generalFromDsd := ⟨.general, .auto, ⟨262144, ⟨0x46c35000⟩, ⟨0x43fa0000⟩, ⟨0x41800000⟩, true, false⟩, .native, .off⟩
          runtimeAlbumGainDb := none }
      pcmTruePeak := ⟨.off, none⟩
      metadata := ⟨true, true, false⟩
      verification := ⟨false, true⟩
      replayGain := ⟨none, true, .rescan⟩ }
  other := ()
  runtimeAlbumLoudestPeakDbfs := none
  runtimeAlbumTrackCount := none

end Manifest
