import Tonepoet.Manifest.ReadBack

/-!
# Version-1 bodies (pipeline/manifest.rs:418-478)

A version-1 body is read as tracks of the legacy route. When its tracks carry the album's fingerprint and stand under it, nothing else is
asked of it than what the reader asks of every manifest.
-/

namespace Manifest

open Rust Fingerprint

variable {ρ : Type} {json : SerdeJson ρ} {sha256 : Bytes → Sha256Digest} {albumDir : PathBuf} {files : Files}

/-- `serde_json` reads a body as one of version 1. -/
structure SerdeJson.ReadsV1 (json : SerdeJson ρ) (bytes : Bytes) (wire : ConversionManifestV1Wire ρ) : Prop where
  version : json.versionOf bytes = .ok 1
  body : json.fromValueV1 bytes = .ok wire
  stated : wire.manifestVersion = 1

/-- A track of a manifest that says what a track of a version-1 body says. -/
structure SameTrack (wire : ConversionManifestTrackV1Wire) (track : ConversionManifestTrack) : Prop where
  source : track.sourcePath = wire.sourcePath ∧ track.sourceSize = wire.sourceSize ∧ track.sourceMtimeSecs = wire.sourceMtimeSecs ∧
    track.sourceAudioMd5 = wire.sourceAudioMd5
  identity : track.trackIdentity = wire.trackIdentity
  execution : track.executionIdentity = .legacyPipelineV1 wire.settingsFingerprint wire.plannerVersion wire.plannedCommandHash
  output : track.outputPath = wire.outputPath ∧ track.outputSize = wire.outputSize
  outputHash : wire.outputHash.mapM Sha256Digest.ofHex = .ok track.outputHash
  validation : track.validationStatus = wire.validationStatus ∧ track.publishTimestamp = wire.publishTimestamp
  native : track.sourceContentSha256 = none ∧ track.sourceProbeDigest = none ∧ track.originalDsdSourceKind = none ∧
    track.dsdFrontEnd = none ∧ track.canonicalMaterializationSha256 = none

def HexDigest (value : Str) : Prop := value.length = 64 ∧ value.all isAsciiHexdigit = true

theorem exists_ofHex {value : Str} : (∃ digest, Sha256Digest.ofHex value = .ok digest) ↔ HexDigest value := by
  unfold Sha256Digest.ofHex HexDigest
  split_ifs with h
  · constructor
    · rintro ⟨digest, hdigest⟩
      cases hdigest
    · rintro ⟨hlength, hhex⟩
      rcases h with h | h
      · exact absurd hlength h
      · exact absurd hhex h
  · rw [not_or, not_not, not_not] at h
    exact ⟨fun _ => h, fun _ => ⟨_, rfl⟩⟩

theorem exists_mapM_ofHex {hash : Option Str} : (∃ digest, hash.mapM Sha256Digest.ofHex = .ok digest) ↔ ∀ value ∈ hash, HexDigest value := by
  cases hash with
  | none => exact ⟨fun _ => nofun, fun _ => ⟨none, rfl⟩⟩
  | some value =>
    have hmap : (some value).mapM Sha256Digest.ofHex = some <$> Sha256Digest.ofHex value := rfl
    rw [hmap]
    constructor
    · rintro ⟨digest, hdigest⟩ value' hvalue
      cases hvalue
      rw [← exists_ofHex]
      cases hhex : Sha256Digest.ofHex value with
      | ok found => exact ⟨found, rfl⟩
      | error error =>
        rw [hhex] at hdigest
        cases hdigest
    · intro h
      obtain ⟨digest, hdigest⟩ := exists_ofHex.2 (h value rfl)
      exact ⟨some digest, by rw [hdigest]; rfl⟩

theorem upgrade_eq_ok {wire : ConversionManifestTrackV1Wire} {track : ConversionManifestTrack} :
    wire.upgrade = .ok track ↔ SameTrack wire track := by
  unfold ConversionManifestTrackV1Wire.upgrade
  rw [bind_eq_ok]
  constructor
  · rintro ⟨hash, hhash, heq⟩
    cases heq
    exact ⟨⟨rfl, rfl, rfl, rfl⟩, rfl, rfl, ⟨rfl, rfl⟩, hhash, ⟨rfl, rfl⟩, ⟨rfl, rfl, rfl, rfl, rfl⟩⟩
  · rintro ⟨⟨hpath, hsize, hmtime, hmd5⟩, hidentity, hexecution, ⟨houtput, houtputSize⟩, hhash, ⟨hvalidation, htime⟩,
      ⟨hcontent, hprobe, hkind, hfront, hcanonical⟩⟩
    refine ⟨track.outputHash, hhash, ?_⟩
    obtain ⟨_, _, _, _, _, _, _, _, _, _, _, _, _, _, _, _⟩ := track
    dsimp only at *
    subst_vars
    rfl

theorem mapM_upgrade_eq_ok {wires : List ConversionManifestTrackV1Wire} {tracks : List ConversionManifestTrack} :
    wires.mapM ConversionManifestTrackV1Wire.upgrade = .ok tracks ↔ List.Forall₂ SameTrack wires tracks := by
  induction wires generalizing tracks with
  | nil =>
    rw [List.mapM_nil]
    constructor
    · intro h
      cases h
      exact .nil
    · rintro ⟨⟩
      rfl
  | cons wire wires ih =>
    rw [List.mapM_cons]
    simp only [bind_eq_ok, upgrade_eq_ok, ih]
    constructor
    · rintro ⟨track, htrack, rest, hrest, heq⟩
      cases heq
      exact .cons htrack hrest
    · rintro (_ | ⟨htrack, hrest⟩)
      exact ⟨_, htrack, _, hrest, rfl⟩

theorem exists_sameTracks {wires : List ConversionManifestTrackV1Wire} :
    (∃ tracks, List.Forall₂ SameTrack wires tracks) ↔ ∀ wire ∈ wires, ∀ value ∈ wire.outputHash, HexDigest value := by
  induction wires with
  | nil => exact ⟨fun _ => nofun, fun _ => ⟨[], .nil⟩⟩
  | cons wire wires ih =>
    rw [List.forall_mem_cons, ← ih, ← exists_mapM_ofHex]
    constructor
    · rintro ⟨_, _ | ⟨htrack, hrest⟩⟩
      exact ⟨⟨_, htrack.outputHash⟩, _, hrest⟩
    · rintro ⟨⟨hash, hhash⟩, tracks, hrest⟩
      have htrack : wire.upgrade = .ok _ := bind_eq_ok.2 ⟨hash, hhash, rfl⟩
      exact ⟨_, .cons (upgrade_eq_ok.1 htrack) hrest⟩

/-- A track under the album that carries the album's fingerprint. -/
def OfAlbum (fingerprint : Sha256Digest) (wire : ConversionManifestTrackV1Wire) : Prop :=
  wire.settingsFingerprint = fingerprint ∧ ∃ clean, validateAlbumRelativeOutputPath wire.outputPath = .ok clean

theorem SameTrack.valid {fingerprint : Sha256Digest} {wire : ConversionManifestTrackV1Wire} {track : ConversionManifestTrack}
    (h : SameTrack wire track) (hof : OfAlbum fingerprint wire) :
    (do let _ ← validateAlbumRelativeOutputPath track.outputPath; return ()) = Except.ok (ε := ManifestError) () ∧
      validateLegacyTrack fingerprint track = .ok () := by
  obtain ⟨hfingerprint, clean, hclean⟩ := hof
  obtain ⟨hcontent, hprobe, hkind, hfront, hcanonical⟩ := h.native
  constructor
  · rw [h.output.1, hclean]
    rfl
  · unfold validateLegacyTrack requireAuthority
    rw [h.execution]
    dsimp only
    rw [require_bind_eq_ok, require_eq_ok, hcontent, hprobe, hkind, hfront, hcanonical]
    exact ⟨hfingerprint, rfl, rfl, rfl, rfl, rfl⟩

theorem forall_of_forall₂ {α β : Type} {R : α → β → Prop} {p : α → Prop} {q : β → Prop} {l : List α} {l' : List β}
    (h : List.Forall₂ R l l') (hl : ∀ a ∈ l, p a) (hq : ∀ a b, R a b → p a → q b) : ∀ b ∈ l', q b := by
  induction h with
  | nil => exact nofun
  | cons hab _ ih =>
    rw [List.forall_mem_cons] at hl ⊢
    exact ⟨hq _ _ hab hl.1, ih hl.2⟩

/-- What a version-1 body of the album's own tracks must still be: whole, of this album, and with digests for hashes. -/
structure WellFormedV1 (albumDir : PathBuf) (wire : ConversionManifestV1Wire ρ) : Prop where
  count : wire.totalTracks = wire.tracks.length
  dir : SamePathLexical wire.albumDir albumDir
  hashes : ∀ track ∈ wire.tracks, ∀ value ∈ track.outputHash, HexDigest value

/-- The reader has the tracks of a version-1 body, under the legacy route. -/
def ReadsV1Back (wire : ConversionManifestV1Wire ρ) (result : Except ManifestError (Option (ConversionManifest ρ))) : Prop :=
  ∃ m', result = .ok (some m') ∧ m'.routeIdentity = .legacyPipelineV1 wire.settingsFingerprint ∧ List.Forall₂ SameTrack wire.tracks m'.tracks

theorem deserialize_v1 {bytes : Bytes} {wire : ConversionManifestV1Wire ρ} (hread : json.ReadsV1 bytes wire)
    {manifest : ConversionManifest ρ} : deserialize json bytes = .ok manifest ↔ ∃ tracks, List.Forall₂ SameTrack wire.tracks tracks ∧
      manifest = ⟨2, wire.albumDir, wire.totalTracks, wire.settings, .legacyPipelineV1 wire.settingsFingerprint, none, tracks⟩ := by
  unfold deserialize
  rw [hread.version, ok_bind, if_neg (by decide), if_pos rfl, hread.body, ok_bind, if_neg (not_not.2 hread.stated), bind_eq_ok]
  simp only [mapM_upgrade_eq_ok]
  constructor
  · rintro ⟨tracks, htracks, heq⟩
    cases heq
    exact ⟨tracks, htracks, rfl⟩
  · rintro ⟨tracks, htracks, rfl⟩
    exact ⟨tracks, htracks, rfl⟩

/-- A version-1 body of one track, with a hash that is no digest. -/
def sampleWire : ConversionManifestV1Wire Unit where
  manifestVersion := 1
  albumDir := sampleAlbumDir
  totalTracks := 1
  settings := referenceSettings
  settingsFingerprint := oneDigest
  tracks :=
    [{  sourcePath := [.rootDir, .normal "a.wav".toList]
        sourceSize := 4096
        sourceMtimeSecs := 0
        sourceAudioMd5 := none
        trackIdentity := ⟨0, none, some 1⟩
        settingsFingerprint := oneDigest
        plannerVersion := "1".toList
        plannedCommandHash := "00".toList
        outputPath := [.normal "a.flac".toList]
        outputSize := 1024
        outputHash := some "c0ffee".toList
        validationStatus := .passed
        publishTimestamp := 0 }]

def sampleJsonV1 : SerdeJson Unit where
  toVecPretty _ := .error "not written"
  versionOf _ := .ok 1
  fromValueV2 _ := .error "missing field"
  fromValueV1 _ := .ok sampleWire

end Manifest
