import Tonepoet.Manifest.ReadBack

/-!
# Where a manifest's outputs lie (pipeline/manifest.rs:927-972)

A manifest names its outputs by paths under the album. Whatever was stored, the outputs of a manifest that is read stay under the album's
directory, and the manifest may be written again as it stands.
-/

namespace Manifest

open Rust

variable {ρ : Type} {json : SerdeJson ρ} {sha256 : Bytes → Sha256Digest} {m : ConversionManifest ρ} {albumDir path clean : PathBuf}
  {files : Files}

/-- `resolve_manifest_output_path`. -/
def resolveManifestOutputPath (albumDir albumRelativeOutputPath : PathBuf) : Except ManifestError PathBuf := do
  let clean ← validateAlbumRelativeOutputPath albumRelativeOutputPath
  return albumDir ++ clean

/-- `album_relative_output_path`. -/
def albumRelativeOutputPath (albumDir finalOutputPath : PathBuf) : Except ManifestError PathBuf := do
  require (albumDir <+: finalOutputPath) (.outputPathEscapesAlbum finalOutputPath)
  validateAlbumRelativeOutputPath (finalOutputPath.drop albumDir.length)

/-- Names and nothing else: no root, no way up. -/
def Names (path : PathBuf) : Prop := path ≠ [] ∧ ∀ c ∈ path, ∃ part, c = .normal part

theorem validateAlbumRelativeOutputPath_names (h : validateAlbumRelativeOutputPath path = .ok clean) : Names clean := by
  unfold validateAlbumRelativeOutputPath at h
  rw [require_bind_eq_ok, require_bind_eq_ok] at h
  obtain ⟨-, hinside, h⟩ := h
  dsimp only at h
  rw [require_bind_eq_ok] at h
  obtain ⟨hne, heq⟩ := h
  cases heq
  refine ⟨hne, ?_⟩
  intro c hc
  obtain ⟨hmem, hcur⟩ := List.mem_filter.1 hc
  cases c with
  | rootDir => exact absurd rfl (hinside _ hmem).2
  | parentDir => exact absurd rfl (hinside _ hmem).1
  | curDir => exact absurd rfl (of_decide_eq_true hcur)
  | normal part => exact ⟨part, rfl⟩

/-- Names pass as they are. -/
theorem Names.validate (h : Names clean) : validateAlbumRelativeOutputPath clean = .ok clean := by
  have hfilter : clean.filter (· ≠ .curDir) = clean := by
    rw [List.filter_eq_self]
    intro c hc
    obtain ⟨part, rfl⟩ := h.2 c hc
    rfl
  unfold validateAlbumRelativeOutputPath
  rw [require_bind_eq_ok, require_bind_eq_ok]
  refine ⟨?_, ?_, ?_⟩
  · unfold isAbsolute
    intro habsolute
    have hroot := List.mem_of_mem_head? (of_decide_eq_true habsolute)
    obtain ⟨part, hpart⟩ := h.2 _ hroot
    cases hpart
  · intro c hc
    obtain ⟨part, rfl⟩ := h.2 c hc
    exact ⟨by simp, by simp⟩
  · dsimp only
    rw [hfilter, require_bind_eq_ok]
    exact ⟨h.1, rfl⟩

/-- Normalising appends names as they are. -/
theorem normalizeLexical_append_names (hclean : ∀ c ∈ clean, ∃ part, c = .normal part) :
    normalizeLexical (albumDir ++ clean) = normalizeLexical albumDir ++ clean := by
  unfold normalizeLexical
  rw [List.foldl_append]
  induction clean using List.reverseRecOn with
  | nil => rw [List.foldl_nil, List.append_nil]
  | append_singleton clean c ih =>
    obtain ⟨part, rfl⟩ := hclean c (by simp)
    rw [List.foldl_append, ih fun c hc => hclean c (List.mem_append_left _ hc), List.foldl_cons, List.foldl_nil, pushLexical,
      List.append_assoc]

/-- An output that lies under the album, and is found again from where it lies. -/
structure UnderAlbum (albumDir output : PathBuf) : Prop where
  below : ∃ names, Names names ∧ normalizeLexical output = normalizeLexical albumDir ++ names
  relative : ∃ stored, albumRelativeOutputPath albumDir output = .ok stored ∧ resolveManifestOutputPath albumDir stored = .ok output

theorem UnderAlbum.of_names (h : Names clean) : UnderAlbum albumDir (albumDir ++ clean) := by
  refine ⟨⟨clean, h, normalizeLexical_append_names h.2⟩, clean, ?_, ?_⟩
  · unfold albumRelativeOutputPath
    rw [require_bind_eq_ok, List.drop_left]
    exact ⟨List.prefix_append _ _, h.validate⟩
  · unfold resolveManifestOutputPath
    rw [h.validate]
    rfl

/-- **Whatever is stored, the outputs of a manifest that is read lie under its album, and its writer would take it as it stands.** -/
theorem readManifest_underAlbum (h : readManifest json sha256 albumDir files = .ok (some m)) :
    m.albumDir = albumDir ∧ validateManifestForAlbum sha256 albumDir m = .ok () ∧
      ∀ track ∈ m.tracks, ∃ output, resolveManifestOutputPath albumDir track.outputPath = .ok output ∧ UnderAlbum albumDir output := by
  unfold readManifest at h
  split at h
  · cases h
  obtain ⟨manifest, -, hrest⟩ := bind_eq_ok.1 h
  obtain ⟨_, hvalid, heq⟩ := bind_eq_ok.1 hrest
  cases heq
  unfold validateManifestForAlbum at hvalid ⊢
  rw [require_bind_eq_ok, require_bind_eq_ok, require_bind_eq_ok, bind_eq_ok] at hvalid ⊢
  obtain ⟨hversion, hcount, -, u, hpaths, hauthority⟩ := hvalid
  refine ⟨rfl, ⟨hversion, hcount, rfl, u, hpaths, hauthority⟩, ?_⟩
  intro track htrack
  obtain ⟨clean, hclean, -⟩ := bind_eq_ok.1 (forM_eq_ok.1 hpaths track htrack)
  refine ⟨albumDir ++ clean, ?_, UnderAlbum.of_names (validateAlbumRelativeOutputPath_names hclean)⟩
  unfold resolveManifestOutputPath
  rw [hclean]
  rfl

/-- The album without its gain. -/
def plainManifest : ConversionManifest Unit :=
  { sampleManifest with settings := referenceSettings, routeIdentity := .dsdReferenceV2 oneDigest .flacNative .soxNg14801V18 oneDigest }

theorem plainManifest_validated : validateManifestForAlbum sampleSha256 sampleAlbumDir plainManifest = .ok () := by
  have hsnapshot : settingsSnapshotFingerprintV2 sampleSha256 referenceSettings.fingerprinted = oneDigest := by
    have hstored : gainedSettings.persisted.fingerprinted = referenceSettings.fingerprinted := rfl
    change sampleSha256 (snapshotFed referenceSettings.fingerprinted) = oneDigest
    rw [sampleSha256, hstored, if_pos rfl]
  unfold validateManifestForAlbum validateManifestAuthority requireAuthority
  rw [require_bind_eq_ok, require_bind_eq_ok, require_bind_eq_ok, bind_eq_ok, require_bind_eq_ok]
  refine ⟨rfl, rfl, rfl, (), rfl, rfl, ?_⟩
  unfold plainManifest
  dsimp only
  rw [require_bind_eq_ok, require_bind_eq_ok]
  exact ⟨by decide, hsnapshot.symm, rfl⟩

theorem plainManifest_underAlbum : ∃ output, resolveManifestOutputPath sampleAlbumDir sampleTrack.outputPath = .ok output ∧
    UnderAlbum sampleAlbumDir output := by
  let json : SerdeJson Unit := { sampleJson with fromValueV2 := fun _ => .ok plainManifest }
  let files : Files := fun path => if path = manifestPath sampleAlbumDir then some [0x7b] else none
  have hread : readManifest json sampleSha256 sampleAlbumDir files = .ok (some plainManifest) := by
    have hdeserialized : deserialize json [0x7b] = .ok plainManifest := rfl
    have hfile : files (manifestPath sampleAlbumDir) = some [0x7b] := if_pos rfl
    unfold readManifest
    rw [hfile]
    dsimp only
    rw [mapError_eq_ok.2 hdeserialized, ok_bind, plainManifest_validated]
    rfl
  exact (readManifest_underAlbum hread).2.2 sampleTrack (List.mem_singleton.2 rfl)

end Manifest
