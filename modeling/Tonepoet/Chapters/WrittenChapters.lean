import Mathlib.Data.List.Forall2
import Tonepoet.Chapters.ReadBack

/-!
# Written chapters, read back

Chapters that are admitted are a seamless partition from the first sample, and their boundaries pass the check when they are read back. What
the check rejects, after the file has been rewritten, is a title that was not kept.
-/

namespace Chapters

open Rust TickRounding

section
variable {clock : Clock} {sampleRate : ℕ}

/-! ## The entries -/

theorem admitChapters_seamless {chapters : List (Str × ℕ × ℕ)} {index : ℕ} {previousEnd : Option ℕ} {entries : List ChapterWriteEntry}
    (hfirst : previousEnd = none → index = 0) (h : admitChapters index previousEnd chapters = .ok entries) :
    SeamlessEntries (previousEnd.getD 0) entries := by
  induction chapters generalizing index previousEnd entries with
  | nil =>
    cases h
    trivial
  | cons c chapters ih =>
    obtain ⟨title, startSample, endSample⟩ := c
    unfold admitChapters at h
    simp only [bind_eq_ok, ensure_eq_ok] at h
    obtain ⟨-, hlt, -, hzero, -, hprevious, rest, hrest, heq⟩ := h
    cases heq
    have hstart : startSample = previousEnd.getD 0 := by
      cases previousEnd with
      | none => exact not_not.1 fun hne => hzero ⟨hfirst rfl, hne⟩
      | some stop => exact (hprevious stop rfl).symm
    have hmore : SeamlessEntries ((some endSample).getD 0) rest := ih nofun hrest
    exact ⟨hstart, hlt, hmore⟩

theorem admitChapters_forall₂ {chapters : List (Str × ℕ × ℕ)} {index : ℕ} {previousEnd : Option ℕ} {entries : List ChapterWriteEntry}
    (h : admitChapters index previousEnd chapters = .ok entries) :
    List.Forall₂ (fun c e => (∃ number, e.title = entryTitle number c.1) ∧ e.endSample = c.2.2) chapters entries := by
  induction chapters generalizing index previousEnd entries with
  | nil =>
    cases h
    exact List.Forall₂.nil
  | cons c chapters ih =>
    obtain ⟨title, startSample, endSample⟩ := c
    unfold admitChapters at h
    simp only [bind_eq_ok, ensure_eq_ok] at h
    obtain ⟨-, -, -, -, -, -, rest, hrest, heq⟩ := h
    cases heq
    exact List.Forall₂.cons ⟨⟨_, rfl⟩, rfl⟩ (ih hrest)

theorem chapterWriteEntries_admit {chapters : List (Str × ℕ × ℕ)} {entries : List ChapterWriteEntry}
    (h : chapterWriteEntries chapters sampleRate = .ok entries) : chapters ≠ [] ∧ admitChapters 0 none chapters = .ok entries := by
  unfold chapterWriteEntries at h
  simp only [bind_eq_ok, ensure_eq_ok] at h
  obtain ⟨-, -, -, hne, hadmit⟩ := h
  exact ⟨hne, hadmit⟩

theorem forall_mem_iff_of_forall₂ {α β : Type} {R : α → β → Prop} {p : α → Prop} {q : β → Prop} {l : List α} {m : List β}
    (h : List.Forall₂ R l m) (hpq : ∀ a b, R a b → (p a ↔ q b)) : (∀ a ∈ l, p a) ↔ ∀ b ∈ m, q b := by
  induction h with
  | nil => simp
  | cons hab _ ih => rw [List.forall_mem_cons, List.forall_mem_cons, hpq _ _ hab, ih]

theorem mapError_eq_ok {ε ε' α : Type} {f : ε → ε'} {x : Except ε α} {a : α} : x.mapError f = .ok a ↔ x = .ok a := by
  cases x <;> simp [Except.mapError]

/-- The check of the tracks that the chapters are read back as. -/
theorem verifyWrittenChapters_eq_ok (h : clock.Runs sampleRate) {entries : List ChapterWriteEntry} (hne : entries ≠ [])
    (hseamless : SeamlessEntries 0 entries) (hstores : ∀ e ∈ entries, clock.StoresChapter sampleRate e) :
    verifyWrittenChapters (entries.map clock.readEmbeddedChapter) entries sampleRate = .ok () ↔
      (∀ e ∈ entries, clock.InRange sampleRate e.endSample) ∧ entries.length ≤ u32Max ∧
        ∀ e ∈ entries, readTitle (ffmetadataUnescape (ffmetadataEscape e.title)) = some e.title := by
  have hlt := fun e he => h.range_lt (hstores e he) (hseamless.lt e he)
  unfold verifyWrittenChapters
  dsimp only
  rw [ensure_of (List.length_map _), ok_bind, bind_eq_ok]
  constructor
  · rintro ⟨tracks, htracks, hverify⟩
    obtain ⟨hrange, hcount, rfl⟩ := (normalize_readBack h hne hseamless hstores).1 (mapError_eq_ok.1 htracks)
    exact ⟨hrange, hcount, (verifyChapters_eq_ok h hstores hlt hrange 0).1 hverify⟩
  · rintro ⟨hrange, hcount, htitles⟩
    exact ⟨_, mapError_eq_ok.2 ((normalize_readBack h hne hseamless hstores).2 ⟨hrange, hcount, rfl⟩),
      (verifyChapters_eq_ok h hstores hlt hrange 0).2 htitles⟩

/-- The chapters that are written pass their own check just when their titles are kept, and the numbers fit. -/
theorem writtenChapters_accepted {chapters : List (Str × ℕ × ℕ)} {entries : List ChapterWriteEntry}
    (h : chapterWriteEntries chapters sampleRate = .ok entries) (hclock : clock.Runs sampleRate)
    (hstores : ∀ e ∈ entries, clock.StoresChapter sampleRate e) :
    ((∃ tracks, normalizeEmbeddedChapters (entries.map clock.readEmbeddedChapter) sampleRate = .ok tracks ∧
        tracks.length = chapters.length ∧ SeamlessTracks 0 tracks) ∧
      verifyWrittenChapters (entries.map clock.readEmbeddedChapter) entries sampleRate = .ok ()) ↔
    (∀ c ∈ chapters, TitleKept c.1) ∧ (∀ c ∈ chapters, clock.InRange sampleRate c.2.2) ∧ chapters.length ≤ u32Max := by
  obtain ⟨hne, hadmit⟩ := chapterWriteEntries_admit h
  have hseamless : SeamlessEntries 0 entries := admitChapters_seamless (fun _ => rfl) hadmit
  have hentries := admitChapters_forall₂ hadmit
  have hlength := hentries.length_eq
  have hne' : entries ≠ [] := fun hnil => hne (List.length_eq_zero_iff.1 (by rw [hlength, hnil, List.length_nil]))
  have hlt := fun e he => hclock.range_lt (hstores e he) (hseamless.lt e he)
  have htitles : (∀ c ∈ chapters, TitleKept c.1) ↔
      ∀ e ∈ entries, readTitle (ffmetadataUnescape (ffmetadataEscape e.title)) = some e.title :=
    forall_mem_iff_of_forall₂ hentries fun c e ⟨⟨number, htitle⟩, _⟩ => by rw [htitle, readTitle_entryTitle]
  have hends : (∀ c ∈ chapters, clock.InRange sampleRate c.2.2) ↔ ∀ e ∈ entries, clock.InRange sampleRate e.endSample :=
    forall_mem_iff_of_forall₂ hentries fun c e ⟨_, hend⟩ => by rw [hend]
  rw [verifyWrittenChapters_eq_ok hclock hne' hseamless hstores, htitles, hends, hlength]
  constructor
  · rintro ⟨-, hrange, hcount, hkept⟩
    exact ⟨hkept, hrange, hcount⟩
  · rintro ⟨hkept, hrange, hcount⟩
    have hpartition := hseamless.tracks hlt 0
    rw [hclock.readBack_zero hne' hseamless hstores] at hpartition
    exact ⟨⟨_, (normalize_readBack hclock hne' hseamless hstores).2 ⟨hrange, hcount, rfl⟩, Clock.length_tracks 0 entries, hpartition⟩,
      hrange, hcount, hkept⟩

end

/-- Milliseconds, of samples at 48 kHz. -/
def milliseconds : Clock := ⟨1, 1000, fun sample => (sample + 24) / 48⟩

theorem milliseconds_runs : milliseconds.Runs 48000 := ⟨by decide, by decide, by decide⟩

/-- A second is stored, whatever it is called. -/
theorem milliseconds_stores (title : Str) : milliseconds.StoresChapter 48000 ⟨title, 0, 48000⟩ := by
  have hstart : milliseconds.Stores 48000 0 := by
    unfold Clock.Stores Nearest
    decide +kernel
  have hstop : milliseconds.Stores 48000 48000 := by
    unfold Clock.Stores Nearest
    decide +kernel
  have hticks : 2 * (48000 * 1) ≤ 1000 * (48000 - 0) := by decide
  exact ⟨hstart, hstop, hticks⟩

theorem milliseconds_inRange : milliseconds.InRange 48000 48000 := by
  unfold Clock.InRange
  decide +kernel

theorem titleKept_intro : TitleKept "Intro".toList := by
  unfold TitleKept
  decide +kernel

theorem writtenChapters_accepted_second :
    (∃ tracks, normalizeEmbeddedChapters ([⟨"Intro".toList, 0, 48000⟩].map milliseconds.readEmbeddedChapter) 48000 = .ok tracks ∧
        tracks.length = 1 ∧ SeamlessTracks 0 tracks) ∧
      verifyWrittenChapters ([⟨"Intro".toList, 0, 48000⟩].map milliseconds.readEmbeddedChapter) [⟨"Intro".toList, 0, 48000⟩] 48000 = .ok () :=
  (writtenChapters_accepted
    (by decide +kernel : chapterWriteEntries [("Intro".toList, 0, 48000)] 48000 = .ok [⟨"Intro".toList, 0, 48000⟩]) milliseconds_runs
    (List.forall_mem_singleton.2 (milliseconds_stores _))).2
    ⟨List.forall_mem_singleton.2 titleKept_intro, List.forall_mem_singleton.2 milliseconds_inRange, (by decide +kernel : 1 ≤ u32Max)⟩

/-- A title that starts with a space is admitted and written, and is rejected when it is read back. -/
theorem writtenChapters_rejected :
    chapterWriteEntries [(" Intro".toList, 0, 48000)] 48000 = .ok [⟨" Intro".toList, 0, 48000⟩] ∧ milliseconds.Runs 48000 ∧
      milliseconds.StoresChapter 48000 ⟨" Intro".toList, 0, 48000⟩ ∧
      verifyWrittenChapters ([⟨" Intro".toList, 0, 48000⟩].map milliseconds.readEmbeddedChapter) [⟨" Intro".toList, 0, 48000⟩] 48000 =
        .error "chapter 1 title mismatch" :=
  ⟨by decide +kernel, milliseconds_runs, milliseconds_stores _, by decide +kernel⟩

end Chapters
