import Mathlib.Data.List.Forall2
import Tonepoet.Manifest.Store

/-!
# A manifest that was written, read back

The reader makes the writer's checks on the stored settings. They agree but for the settings snapshot of the Reference route, which binds
the runtime album gains that are not stored: what was written with one of them bound is refused.
-/

namespace Manifest

open Rust Fingerprint

variable {ρ : Type} {json : SerdeJson ρ} {sha256 : Bytes → Sha256Digest} {m : ConversionManifest ρ} {albumDir : PathBuf} {files : Files}

/-! ## The checks of what is stored -/

theorem require_eq_ok {condition : Prop} [Decidable condition] {error : ManifestError} {u : Unit} :
    require condition error = .ok u ↔ condition := by
  unfold require
  split_ifs with h
  · exact ⟨fun _ => h, fun _ => rfl⟩
  · exact ⟨nofun, fun h' => absurd h' h⟩

theorem require_bind_eq_ok {α : Type} {condition : Prop} [Decidable condition] {error : ManifestError} {f : Unit → Except ManifestError α} {a : α} :
    (require condition error >>= f) = .ok a ↔ condition ∧ f () = .ok a := by
  rw [bind_eq_ok]
  simp only [require_eq_ok]
  exact ⟨fun ⟨_, h, hf⟩ => ⟨h, hf⟩, fun ⟨h, hf⟩ => ⟨(), h, hf⟩⟩

theorem forM_eq_ok {α : Type} {f : α → Except ManifestError Unit} {l : List α} : l.forM f = .ok () ↔ ∀ a ∈ l, f a = .ok () := by
  induction l with
  | nil => exact ⟨fun _ => nofun, fun _ => rfl⟩
  | cons a l ih =>
    rw [List.forall_mem_cons, ← ih]
    constructor
    · intro h
      obtain ⟨_, ha, hl⟩ := bind_eq_ok.1 h
      exact ⟨ha, hl⟩
    · rintro ⟨ha, hl⟩
      exact bind_eq_ok.2 ⟨(), ha, hl⟩

/-- The bytes that a settings snapshot is the digest of. -/
def snapshotFed (settings : PipelineSettings) : Bytes :=
  fed (field "schema".toList "tonepoet-settings-snapshot/v2".toList schema_separatorFree :: pushPipelineSettings settings)

/-- The stored settings have the snapshot of the settings, where the route binds one. -/
def SnapshotKept (sha256 : Bytes → Sha256Digest) (m : ConversionManifest ρ) : Prop :=
  match m.routeIdentity with
  | .dsdReferenceV2 .. =>
    settingsSnapshotFingerprintV2 sha256 m.settings.fingerprinted = settingsSnapshotFingerprintV2 sha256 m.settings.persisted.fingerprinted
  | _ => True

theorem validateManifestAuthority_persisted (h : validateManifestAuthority sha256 m = .ok ()) :
    validateManifestAuthority sha256 m.persisted = .ok () ↔ SnapshotKept sha256 m := by
  obtain ⟨version, dir, count, settings, route, programme, tracks⟩ := m
  unfold validateManifestAuthority requireAuthority at *
  unfold SnapshotKept ConversionManifest.persisted
  rw [require_bind_eq_ok] at h ⊢
  cases route with
  | legacyPipelineV1 fingerprint => exact ⟨fun _ => trivial, fun _ => h⟩
  | dsdManualV2 => exact absurd h.2 nofun
  | dsdReferenceV2 snapshot target policy digest =>
    simp only [require_bind_eq_ok] at h ⊢
    obtain ⟨hprogramme, hcount, hsnapshot, hroute⟩ := h
    constructor
    · rintro ⟨-, -, hstored, -⟩
      exact hsnapshot.symm.trans hstored
    · intro hkept
      exact ⟨hprogramme, hcount, hsnapshot.trans hkept, hroute⟩

theorem validateManifestForAlbum_persisted (h : validateManifestForAlbum sha256 albumDir m = .ok ()) :
    validateManifestForAlbum sha256 albumDir m.persisted = .ok () ↔ SnapshotKept sha256 m := by
  unfold validateManifestForAlbum at *
  rw [require_bind_eq_ok, require_bind_eq_ok, require_bind_eq_ok, bind_eq_ok] at h ⊢
  obtain ⟨hversion, hcount, hdir, u, hpaths, hauthority⟩ := h
  rw [← validateManifestAuthority_persisted hauthority]
  constructor
  · rintro ⟨-, -, -, -, -, hstored⟩
    exact hstored
  · intro hstored
    exact ⟨hversion, hcount, hdir, u, hpaths, hstored⟩

/-! ## The settings snapshot -/

/-- Neither runtime album gain is bound. -/
def RuntimeUnbound (settings : ManifestSettings ρ) : Prop :=
  settings.fingerprinted.dsd.runtimeAlbumGainDb = none ∧ settings.fingerprinted.pcmTruePeak.runtimeAlbumGainDb = none

/-- Where the route binds a settings snapshot, no runtime album gain is bound. -/
def ReadableRoute (m : ConversionManifest ρ) : Prop :=
  match m.routeIdentity with
  | .dsdReferenceV2 .. => RuntimeUnbound m.settings
  | _ => True

theorem snapshotFed_injective : Function.Injective snapshotFed := by
  intro s t h
  have hfields := fed_injective h
  exact pushPipelineSettings_selfDelimiting.injective (List.cons.inj hfields).2

theorem persisted_fingerprinted_eq (settings : ManifestSettings ρ) :
    settings.fingerprinted = settings.persisted.fingerprinted ↔ RuntimeUnbound settings := by
  unfold RuntimeUnbound
  constructor
  · intro h
    have hdsd := congrArg (fun s => s.dsd.runtimeAlbumGainDb) h
    have hpcm := congrArg (fun s => s.pcmTruePeak.runtimeAlbumGainDb) h
    exact ⟨hdsd, hpcm⟩
  · rintro ⟨hdsd, hpcm⟩
    have hdsd' : settings.persisted.fingerprinted.dsd = settings.fingerprinted.dsd := by
      unfold ManifestSettings.persisted
      rw [← hdsd]
    have hpcm' : settings.persisted.fingerprinted.pcmTruePeak = settings.fingerprinted.pcmTruePeak := by
      unfold ManifestSettings.persisted
      rw [← hpcm]
    calc settings.fingerprinted
        = { settings.persisted.fingerprinted with
            dsd := settings.fingerprinted.dsd, pcmTruePeak := settings.fingerprinted.pcmTruePeak } := rfl
      _ = settings.persisted.fingerprinted := by rw [← hdsd', ← hpcm']

/-- SHA-256 tells the settings from the stored ones. -/
def TellsApart (sha256 : Bytes → Sha256Digest) (settings : ManifestSettings ρ) : Prop :=
  sha256 (snapshotFed settings.fingerprinted) = sha256 (snapshotFed settings.persisted.fingerprinted) →
    snapshotFed settings.fingerprinted = snapshotFed settings.persisted.fingerprinted

theorem snapshotKept_iff (hsha : TellsApart sha256 m.settings) : SnapshotKept sha256 m ↔ ReadableRoute m := by
  unfold SnapshotKept ReadableRoute
  cases m.routeIdentity with
  | legacyPipelineV1 => exact Iff.rfl
  | dsdManualV2 => exact Iff.rfl
  | dsdReferenceV2 =>
    dsimp only
    rw [← persisted_fingerprinted_eq]
    constructor
    · intro h
      exact snapshotFed_injective (hsha h)
    · intro h
      rw [← h]

/-! ## A file in its place -/

/-- What `serde_json` writes of a manifest it reads back, in the version the body gives. -/
def SerdeJson.RoundTrips (json : SerdeJson ρ) (m : ConversionManifest ρ) : Prop :=
  ∀ bytes, json.toVecPretty m.persisted = .ok bytes →
    json.versionOf bytes = .ok m.manifestVersion ∧ json.fromValueV2 bytes = .ok m.persisted

/-- The reader has the manifest, with the fields that are stored. -/
def ReadsBack (m : ConversionManifest ρ) (result : Except ManifestError (Option (ConversionManifest ρ))) : Prop :=
  ∃ m', result = .ok (some m') ∧ m'.routeIdentity = m.routeIdentity ∧ m'.tracks = m.tracks ∧ m'.totalTracks = m.totalTracks ∧
    m'.settings = m.settings.persisted

theorem ok_bind {ε α β : Type} (a : α) (f : α → Except ε β) : (Except.ok a >>= f) = f a := rfl

theorem mapError_eq_ok {ε ε' α : Type} {f : ε → ε'} {x : Except ε α} {a : α} : x.mapError f = .ok a ↔ x = .ok a := by
  cases x with
  | error e =>
    constructor
    · intro h
      cases h
    · intro h
      cases h
  | ok b =>
    constructor
    · intro h
      cases h
      rfl
    · intro h
      rw [h]
      rfl

/-- A stored manifest is read when it passes the checks. -/
theorem readsBack_stored (hjson : json.RoundTrips m) {bytes : Bytes} (hbytes : json.toVecPretty m.persisted = .ok bytes)
    (hvalid : validateManifestForAlbum sha256 albumDir m = .ok ()) (hfile : files (manifestPath albumDir) = some bytes) :
    ReadsBack m (readManifest json sha256 albumDir files) ↔ SnapshotKept sha256 m := by
  obtain ⟨hversion, hbody⟩ := hjson bytes hbytes
  have hversion' : m.manifestVersion = 2 := by
    unfold validateManifestForAlbum at hvalid
    exact (require_bind_eq_ok.1 hvalid).1
  have hread : deserialize json bytes = .ok m.persisted := by
    unfold deserialize
    have hstated : ¬ m.persisted.manifestVersion ≠ 2 := not_not.2 hversion'
    rw [hversion, ok_bind, if_pos hversion', hbody, ok_bind, if_neg hstated, ← hversion']
    rfl
  unfold readManifest
  rw [hfile]
  dsimp only
  rw [hread, mapError_eq_ok.2 rfl, ok_bind, ← validateManifestForAlbum_persisted hvalid]
  constructor
  · rintro ⟨m', hm', -⟩
    obtain ⟨u, hu, -⟩ := bind_eq_ok.1 hm'
    exact hu
  · intro hkept
    rw [hkept, ok_bind]
    exact ⟨_, rfl, rfl, rfl, rfl, rfl⟩

theorem writeManifestFileUnchecked_eq_ok {path : PathBuf} {files' : Files}
    (h : writeManifestFileUnchecked json path m files = .ok files') :
    ∃ bytes, json.toVecPretty m.persisted = .ok bytes ∧ files' path = some bytes := by
  unfold writeManifestFileUnchecked at h
  obtain ⟨bytes, hbytes, heq⟩ := bind_eq_ok.1 h
  cases heq
  exact ⟨bytes, mapError_eq_ok.1 hbytes, Function.update_self ..⟩

/-- What was written into the album is read from it. -/
theorem readsBack_writeManifest (hjson : json.RoundTrips m) {path : PathBuf} {files' : Files}
    (h : writeManifest json sha256 albumDir m files = .ok (path, files')) :
    ReadsBack m (readManifest json sha256 albumDir files') ↔ SnapshotKept sha256 m := by
  unfold writeManifest at h
  obtain ⟨_, hvalid, hwrite⟩ := bind_eq_ok.1 h
  obtain ⟨written, hfile, heq⟩ := bind_eq_ok.1 hwrite
  cases heq
  obtain ⟨bytes, hbytes, hplace⟩ := writeManifestFileUnchecked_eq_ok hfile
  exact readsBack_stored hjson hbytes hvalid hplace

/-- What was written into the temporary album is read from the album it becomes. -/
theorem readsBack_writeManifestForPublish (hjson : json.RoundTrips m) {tempAlbumDir path : PathBuf} {files' : Files}
    (h : writeManifestForPublish json sha256 tempAlbumDir albumDir m files = .ok (path, files')) :
    ReadsBack m (readManifest json sha256 albumDir (renameAlbum tempAlbumDir albumDir files')) ↔ SnapshotKept sha256 m := by
  unfold writeManifestForPublish at h
  obtain ⟨_, hvalid, hwrite⟩ := bind_eq_ok.1 h
  obtain ⟨written, hfile, heq⟩ := bind_eq_ok.1 hwrite
  cases heq
  obtain ⟨bytes, hbytes, hplace⟩ := writeManifestFileUnchecked_eq_ok hfile
  have hmoved : renameAlbum tempAlbumDir albumDir files' (manifestPath albumDir) = some bytes := by
    unfold renameAlbum manifestPath at *
    rw [if_pos (List.prefix_append _ _), List.drop_left, hplace]
  exact readsBack_stored hjson hbytes hvalid hmoved

/-- The settings of an album whose shared gain is −1.5 dB. -/
def gainedSettings : ManifestSettings Unit := referenceSettings.bindRuntimeAlbumGain ⟨-1500000000⟩ (some ⟨1400000000⟩) 2

def oneDigest : Sha256Digest := ⟨Vector.replicate 32 1⟩

/-- A digest that tells these settings from the stored ones. -/
def sampleSha256 (bytes : Bytes) : Sha256Digest :=
  if bytes = snapshotFed gainedSettings.persisted.fingerprinted then oneDigest else zeroSha256Digest

def sampleTrack : ConversionManifestTrack where
  sourcePath := [.rootDir, .normal "a.dsf".toList]
  sourceSize := 4096
  sourceMtimeSecs := 0
  sourceAudioMd5 := none
  sourceContentSha256 := some oneDigest
  sourceProbeDigest := some oneDigest
  originalDsdSourceKind := some .dsfUncompressed
  dsdFrontEnd := some .nativeUncompressed
  canonicalMaterializationSha256 := none
  trackIdentity := ⟨0, none, some 1⟩
  executionIdentity := .nativeDsdV2 oneDigest oneDigest oneDigest oneDigest oneDigest oneDigest
  outputPath := [.normal "a.flac".toList]
  outputSize := 1024
  outputHash := some oneDigest
  validationStatus := .passed
  publishTimestamp := 0

def sampleAlbumDir : PathBuf := [.rootDir, .normal "album".toList]

/-- An album of one track with a shared gain. -/
def sampleManifest : ConversionManifest Unit where
  manifestVersion := 2
  albumDir := sampleAlbumDir
  totalTracks := 1
  settings := gainedSettings
  routeIdentity := .dsdReferenceV2 (sampleSha256 (snapshotFed gainedSettings.fingerprinted)) .flacNative .soxNg14801V18 oneDigest
  programmeIdentity := none
  tracks := [sampleTrack]

/-- Everything is stored as one byte. -/
def sampleJson : SerdeJson Unit where
  toVecPretty _ := .ok [0x7b]
  versionOf _ := .ok 2
  fromValueV2 _ := .ok sampleManifest.persisted
  fromValueV1 _ := .error "missing field"

theorem sampleManifest_written : ∃ written, writeManifest sampleJson sampleSha256 sampleAlbumDir sampleManifest (fun _ => none) = .ok written := by
  have hvalid : validateManifestForAlbum sampleSha256 sampleAlbumDir sampleManifest = .ok () := by
    unfold validateManifestForAlbum validateManifestAuthority requireAuthority
    rw [require_bind_eq_ok, require_bind_eq_ok, require_bind_eq_ok, bind_eq_ok, require_bind_eq_ok]
    refine ⟨rfl, rfl, rfl, (), rfl, rfl, ?_⟩
    unfold sampleManifest
    dsimp only
    rw [require_bind_eq_ok, require_bind_eq_ok]
    exact ⟨by decide, rfl, rfl⟩
  unfold writeManifest
  rw [hvalid]
  exact ⟨_, rfl⟩

end Manifest
