import Tonepoet.Concurrency.PathClaims

/-!
# When coverage is sound for conflicts

A claim that covers another does so by one of its paths; a third claim may meet the covered one in another
aspect. Coverage is sound exactly where the covering claim is as broad in every aspect the covered one has.
-/

namespace Concurrency

open PathRegion

namespace PathClaim

/-- `normalized_key`. -/
abbrev key (a : PathClaim) : Path := a.identity.resolvedIoPath
abbrev spelled (a : PathClaim) : Path := a.identity.namespacePath
abbrev followed (a : PathClaim) : List Path := a.identity.namespaceDependencies

/-- A claim on the subtree of the empty path meets every other claim. -/
def Universal (a : PathClaim) : Prop := a.scope = .subtree ∧ a.key = []

/-- `b` only reads one object, whose name `a` has followed: whoever conflicts with `b` there rebinds it. -/
def ReadsFollowed (a b : PathClaim) (p : Path) : Prop := b.mode = .read ∧ b.scope = .exact ∧ p ∈ a.followed

/-- `a` is as broad as `b` in every aspect `b` has. -/
structure BroadAs (a b : PathClaim) : Prop where
  file : b.identity.dev.isSome → b.identity.ino.isSome → a.identity.dev = b.identity.dev ∧ a.identity.ino = b.identity.ino
  key : Covers a.scope a.key b.key ∨ a.ReadsFollowed b b.key
  spelled : b.spelled ≠ [] → (a.spelled ≠ [] ∧ Covers a.scope a.spelled b.spelled) ∨ a.ReadsFollowed b b.spelled
  unspelled : b.mode = .write → b.spelled = [] → a.spelled = [] ∨ a.key = []
  follows : b.followed ≠ [] → a.followed ≠ []
  followed : ∀ d ∈ b.followed, d ∈ a.followed ∨ (Covers a.scope a.key d ∧ a.spelled ≠ [] ∧ Covers a.scope a.spelled d)

variable {a b c : PathClaim}

/-! ## As broad is enough -/

theorem Universal.meets (h : a.Universal) (c : PathClaim) : c.Meets a :=
  .inr (.inl (.inr (.inr ⟨h.1, by rw [show a.identity.resolvedIoPath = [] from h.2]; exact List.nil_prefix⟩)))

/-- What covers a path a claim reads touches it: a writer that meets the object rebinds the followed name. -/
theorem touches_of_overlap {p : Path} {d : Path} (hwrite : c.mode = .write) (hp : p = c.key ∨ p = c.spelled)
    (h : Overlap c.scope p .exact d) : c.Touches d := by
  have hcovers : Covers c.scope p d := by
    rcases h with h | h
    · exact h
    · rw [covers_exact.1 h]
      exact covers_self _ _
  rcases hp with rfl | rfl
  · exact ⟨hwrite, .inr hcovers⟩
  · exact ⟨hwrite, .inl hcovers⟩

theorem BroadAs.meets (h : a.BroadAs b) (hmode : ¬ (a.mode = .read ∧ b.mode = .write))
    (hscope : b.scope = .subtree → a.scope = .subtree) (hread : ¬ (c.mode = .read ∧ b.mode = .read)) (hc : c.Meets b) :
    c.Meets a := by
  -- a claim that conflicts with a reader is a writer
  have hwriter : b.mode = .read → c.mode = .write := by
    intro hb
    cases hcm : c.mode
    · exact absurd ⟨hcm, hb⟩ hread
    · rfl
  have hfollowed : ∀ {p : Path}, a.ReadsFollowed b p → ∀ {q : Path}, (q = c.key ∨ q = c.spelled) →
      Overlap c.scope q b.scope p → c.Meets a := by
    intro p hp q hq hoverlap
    rw [hp.2.1] at hoverlap
    exact .inr (.inr (.inr (.inr ⟨p, hp.2.2, touches_of_overlap (hwriter hp.1) hq hoverlap⟩)))
  rcases hc with hfile | hkey | ⟨hcs, hbs, hspelled⟩ | ⟨d, hd, htouch⟩ | ⟨d, hd, htouch⟩
  · obtain ⟨hdev, hdeveq, hino, hinoeq⟩ := hfile
    obtain ⟨hd, hi⟩ := h.file (hdeveq ▸ hdev) (hinoeq ▸ hino)
    exact .inl ⟨hdev, hdeveq.trans hd.symm, hino, hinoeq.trans hi.symm⟩
  · rcases h.key with hcovers | hreads
    · exact .inr (.inl (hkey.mono (region_subset hcovers hscope)))
    · exact hfollowed hreads (.inl rfl) hkey
  · rcases h.spelled hbs with ⟨has, hcovers⟩ | hreads
    · exact .inr (.inr (.inl ⟨hcs, has, hspelled.mono (region_subset hcovers hscope)⟩))
    · exact hfollowed hreads (.inr rfl) hspelled
  · -- `b` writes what `c` has followed, and so does `a`
    obtain ⟨hbw, htouch⟩ := htouch
    have haw : a.mode = .write := by
      cases ham : a.mode
      · exact absurd ⟨ham, hbw⟩ hmode
      · rfl
    have hnotread : ∀ p, ¬ a.ReadsFollowed b p := fun p hp => by
      rw [hp.1] at hbw
      cases hbw
    refine .inr (.inr (.inr (.inl ⟨d, hd, haw, ?_⟩)))
    rcases htouch with hbs | hbk
    · by_cases hempty : b.spelled = []
      · rw [show b.identity.namespacePath = [] from hempty] at hbs
        have hreach : Covers a.scope [] d := by
          rcases hbs with rfl | ⟨hsub, hprefix⟩
          · exact covers_self _ _
          · exact .inr ⟨hscope hsub, hprefix⟩
        rcases h.unspelled hbw hempty with has | hak
        · exact .inl (by rw [show a.identity.namespacePath = [] from has]; exact hreach)
        · exact .inr (by rw [show a.identity.resolvedIoPath = [] from hak]; exact hreach)
      · obtain ⟨-, hcovers⟩ := (h.spelled hempty).resolve_right (hnotread _)
        exact .inl (region_subset hcovers hscope hbs)
    · exact .inr (region_subset (h.key.resolve_right (hnotread _)) hscope hbk)
  · -- `c` writes what `b` has followed
    obtain ⟨hcw, htouch⟩ := htouch
    rcases h.followed d hd with hmem | ⟨hkey, has, hspelled⟩
    · exact .inr (.inr (.inr (.inr ⟨d, hmem, hcw, htouch⟩)))
    · rcases htouch with hcs | hck
      · by_cases hempty : c.spelled = []
        · rw [show c.identity.namespacePath = [] from hempty] at hcs
          -- the empty spelling touches everything followed, if anything
          rcases hcs with rfl | ⟨hsub, -⟩
          · exact absurd (List.prefix_nil.1 hspelled.isPrefix) has
          · obtain ⟨d', hd'⟩ := List.exists_mem_of_ne_nil _ (h.follows (List.ne_nil_of_mem hd))
            refine .inr (.inr (.inr (.inr ⟨d', hd', hcw, .inl ?_⟩)))
            rw [show c.identity.namespacePath = [] from hempty]
            exact .inr ⟨hsub, List.nil_prefix⟩
        · exact .inr (.inr (.inl ⟨hempty, has, overlap_iff_nonempty.2 ⟨d, hcs, hspelled⟩⟩))
      · exact .inr (.inl (overlap_iff_nonempty.2 ⟨d, hck, hkey⟩))

/-! ## Anything less is not -/

/-- A component that no path of the claim has. -/
structure Fresh (a : PathClaim) (x : Component) : Prop where
  key : x ∉ a.key
  spelled : x ∉ a.spelled
  followed : ∀ d ∈ a.followed, x ∉ d

instance : Infinite Component := Infinite.of_injective Component.normal fun _ _ h => Component.normal.inj h

theorem exists_fresh (a : PathClaim) : ∃ x, a.Fresh x := by
  classical
  obtain ⟨x, hx⟩ := Infinite.exists_notMem_finset (a.key ++ a.spelled ++ a.followed.flatten).toFinset
  rw [List.mem_toFinset, List.mem_append, List.mem_append, List.mem_flatten, not_or, not_or] at hx
  exact ⟨x, hx.1.1, hx.1.2, fun d hd hxd => hx.2 ⟨d, hd, hxd⟩⟩

variable {x : Component}

theorem Fresh.notMem (h : a.Fresh x) {p : Path} (hp : x ∈ p) : p ∉ a.followed := fun hmem => h.followed p hmem hp

/-- How an exact claim can meet another. -/
theorem meets_of_exact (hscope : c.scope = .exact) (h : c.Meets a) :
    c.SameFile a ∨ Covers a.scope a.key c.key ∨ (a.spelled ≠ [] ∧ Covers a.scope a.spelled c.spelled) ∨
      (∃ d ∈ c.followed, a.Touches d) ∨ (c.mode = .write ∧ (c.spelled ∈ a.followed ∨ c.key ∈ a.followed)) := by
  have hoverlap : ∀ {p q : Path}, Overlap c.scope p a.scope q → Covers a.scope q p := by
    intro p q hpq
    rcases hpq with hpq | hpq
    · rw [hscope, covers_exact] at hpq
      rw [hpq]
      exact covers_self _ _
    · exact hpq
  rcases h with hfile | hkey | ⟨-, has, hspelled⟩ | htouch | ⟨d, hd, hwrite, htouch⟩
  · exact .inl hfile
  · exact .inr (.inl (hoverlap hkey))
  · exact .inr (.inr (.inl ⟨has, hoverlap hspelled⟩))
  · exact .inr (.inr (.inr (.inl htouch)))
  · rw [hscope, covers_exact, covers_exact] at htouch
    refine .inr (.inr (.inr (.inr ⟨hwrite, ?_⟩)))
    rcases htouch with rfl | rfl
    · exact .inl hd
    · exact .inr hd

/-- A claim that reaches a path extended by a fresh component reaches the path. -/
theorem covers_of_concat {s : ClaimScope} {p q : Path} (hx : x ∉ p) (h : Covers s p (q ++ [x])) : Covers s p q := by
  rcases h with rfl | ⟨rfl, h⟩
  · exact absurd (List.mem_append_right _ (List.mem_singleton_self x)) hx
  · rcases List.prefix_concat_iff.1 h with rfl | h
    · exact absurd (List.mem_append_right _ (List.mem_singleton_self x)) hx
    · exact .inr ⟨rfl, h⟩

theorem not_sameFile {i : ResolvedPathIdentity} {m : ClaimMode} {s : ClaimScope} (h : i.dev = none) :
    ¬ SameFile ⟨i, m, s⟩ a := fun hfile => by
  have := hfile.1
  rw [show (⟨i, m, s⟩ : PathClaim).identity.dev = none from h] at this
  cases this

/-- **Soundness forces breadth.** Each aspect of `b` is met by a claim that has no other. -/
theorem broadAs_of_sound (huniversal : ¬ a.Universal)
    (h : ∀ c : PathClaim, ¬ (c.mode = .read ∧ b.mode = .read) → c.Meets b → c.Meets a) : a.BroadAs b := by
  obtain ⟨x, hx⟩ := exists_fresh a
  have hmem : x ∈ [x] := List.mem_singleton_self x
  have hkey : ¬ Covers a.scope a.key [x] := not_covers_fresh hx.key huniversal
  have hspelled : a.spelled ≠ [] → ¬ Covers a.scope a.spelled [x] := fun hne =>
    not_covers_fresh hx.spelled fun h => hne h.2
  -- where `b` reaches more than one path, a path below it is reached by no followed name
  have hpath : ∀ p : Path, ∃ (q : Path) (m : ClaimMode), Covers b.scope p q ∧ ¬ (m = .read ∧ b.mode = .read) ∧
      (∀ r, x ∉ r → Covers a.scope r q → Covers a.scope r p) ∧ (m = .write → q ∈ a.followed → a.ReadsFollowed b p) := by
    intro p
    cases hscope : b.scope
    · cases hmode : b.mode
      · refine ⟨p, .write, covers_self _ _, by simp, fun _ _ hr => hr, fun _ hq => ⟨hmode, hscope, hq⟩⟩
      · exact ⟨p, .read, covers_self _ _, by simp, fun _ _ hr => hr, nofun⟩
    · refine ⟨p ++ [x], .write, .inr ⟨rfl, List.prefix_append _ _⟩, by simp, fun r hr => covers_of_concat hr, fun _ hq => ?_⟩
      exact absurd hq (hx.notMem (List.mem_append_right _ hmem))
  refine ⟨fun hdev hino => ?_, ?_, fun hne => ?_, fun hwrite hempty => ?_, fun hne => ?_, fun d hd => ?_⟩
  · have hmeets := h ⟨⟨[x], [], [x], b.identity.dev, b.identity.ino⟩, .write, .exact⟩ (by simp) (.inl ⟨hdev, rfl, hino, rfl⟩)
    rcases meets_of_exact rfl hmeets with hfile | hcovers | ⟨has, hcovers⟩ | ⟨d, hd, -⟩ | ⟨-, hd | hd⟩
    · exact ⟨hfile.2.1.symm, hfile.2.2.2.symm⟩
    · exact absurd hcovers hkey
    · exact absurd hcovers (hspelled has)
    · cases hd
    · exact absurd hd (hx.notMem hmem)
    · exact absurd hd (hx.notMem hmem)
  · obtain ⟨q, m, hq, hread, hback, hfollowed⟩ := hpath b.key
    have hmeets := h ⟨⟨[x], [], q, none, none⟩, m, .exact⟩ hread (.inr (.inl (.inr hq)))
    rcases meets_of_exact rfl hmeets with hfile | hcovers | ⟨has, hcovers⟩ | ⟨d, hd, -⟩ | ⟨hm, hd | hd⟩
    · exact absurd hfile (not_sameFile rfl)
    · exact .inl (hback _ hx.key hcovers)
    · exact absurd hcovers (hspelled has)
    · cases hd
    · exact absurd hd (hx.notMem hmem)
    · exact .inr (hfollowed hm hd)
  · obtain ⟨q, m, hq, hread, hback, hfollowed⟩ := hpath b.spelled
    have hqne : q ≠ [] := fun hnil => hne (List.prefix_nil.1 (hnil ▸ hq.isPrefix))
    have hmeets := h ⟨⟨q, [], [x], none, none⟩, m, .exact⟩ hread (.inr (.inr (.inl ⟨hqne, hne, .inr hq⟩)))
    rcases meets_of_exact rfl hmeets with hfile | hcovers | ⟨has, hcovers⟩ | ⟨d, hd, -⟩ | ⟨hm, hd | hd⟩
    · exact absurd hfile (not_sameFile rfl)
    · exact absurd hcovers hkey
    · exact .inl ⟨has, hback _ hx.spelled hcovers⟩
    · cases hd
    · exact .inr (hfollowed hm hd)
    · exact absurd hd (hx.notMem hmem)
  · have htouch : b.Touches [] := ⟨hwrite, .inl (by rw [show b.identity.namespacePath = [] from hempty]; exact covers_self _ _)⟩
    have hmeets := h ⟨⟨[x], [[]], [x], none, none⟩, .read, .exact⟩ (by rw [hwrite]; simp)
      (.inr (.inr (.inr (.inl ⟨[], by simp, htouch⟩))))
    rcases meets_of_exact rfl hmeets with hfile | hcovers | ⟨has, hcovers⟩ | ⟨d, hd, -, htouch⟩ | ⟨hm, -⟩
    · exact absurd hfile (not_sameFile rfl)
    · exact absurd hcovers hkey
    · exact absurd hcovers (hspelled has)
    · obtain rfl := List.mem_singleton.1 hd
      rcases htouch with htouch | htouch
      · exact .inl (List.prefix_nil.1 htouch.isPrefix)
      · exact .inr (List.prefix_nil.1 htouch.isPrefix)
    · cases hm
  · obtain ⟨d, hd⟩ := List.exists_mem_of_ne_nil _ hne
    have hmeets := h ⟨⟨[], [], [x], none, none⟩, .write, .subtree⟩ (by simp)
      (.inr (.inr (.inr (.inr ⟨d, hd, rfl, .inl (.inr ⟨rfl, List.nil_prefix⟩)⟩))))
    rcases hmeets with hfile | hoverlap | ⟨hempty, -⟩ | ⟨d, hd, -⟩ | ⟨d, hd, -⟩
    · exact absurd hfile (not_sameFile rfl)
    · rcases hoverlap with hcovers | hcovers
      · exact absurd (hcovers.isPrefix.subset hmem) hx.key
      · exact absurd hcovers hkey
    · exact absurd rfl hempty
    · cases hd
    · exact List.ne_nil_of_mem hd
  · by_cases hmemd : d ∈ a.followed
    · exact .inl hmemd
    have hbykey := h ⟨⟨[x], [], d, none, none⟩, .write, .exact⟩ (by simp)
      (.inr (.inr (.inr (.inr ⟨d, hd, rfl, .inr (covers_self _ _)⟩))))
    have hbyspelling := h ⟨⟨d, [], [x], none, none⟩, .write, .exact⟩ (by simp)
      (.inr (.inr (.inr (.inr ⟨d, hd, rfl, .inl (covers_self _ _)⟩))))
    have hreach : Covers a.scope a.key d := by
      rcases meets_of_exact rfl hbykey with hfile | hcovers | ⟨has, hcovers⟩ | ⟨d', hd', -⟩ | ⟨-, hd' | hd'⟩
      · exact absurd hfile (not_sameFile rfl)
      · exact hcovers
      · exact absurd hcovers (hspelled has)
      · cases hd'
      · exact absurd hd' (hx.notMem hmem)
      · exact absurd hd' hmemd
    rcases meets_of_exact rfl hbyspelling with hfile | hcovers | ⟨has, hcovers⟩ | ⟨d', hd', -⟩ | ⟨-, hd' | hd'⟩
    · exact absurd hfile (not_sameFile rfl)
    · exact absurd hcovers hkey
    · exact .inr ⟨hreach, has, hcovers⟩
    · cases hd'
    · exact absurd hd' hmemd
    · exact absurd hd' (hx.notMem hmem)

/-! ## Coverage -/

/-- **Exactly when coverage is sound for conflict detection.** -/
theorem covers_sound_iff (a b : PathClaim) :
    (∀ c : PathClaim, a.covers b = true → c.conflictsWith b = true → c.conflictsWith a = true) ↔
      (a.covers b = true → a.Universal ∨ a.BroadAs b) := by
  constructor
  · intro h hcovers
    by_cases huniversal : a.Universal
    · exact .inl huniversal
    · exact .inr (broadAs_of_sound huniversal fun c hread hmeets =>
        (conflictsWith_iff.1 (h c hcovers (conflictsWith_iff.2 ⟨hread, hmeets⟩))).2)
  · intro h c hcovers hconflict
    obtain ⟨hread, hmeets⟩ := conflictsWith_iff.1 hconflict
    obtain ⟨hmode, hscope, -⟩ := covers_iff.1 hcovers
    refine conflictsWith_iff.2 ⟨fun hboth => ?_, ?_⟩
    · cases hb : b.mode
      · exact hread ⟨hboth.1, hb⟩
      · exact hmode ⟨hboth.2, hb⟩
    · rcases h hcovers with huniversal | hbroad
      · exact huniversal.meets c
      · exact hbroad.meets hmode hscope hread hmeets

/-- A held album, a track in it that has another name, and a writer by that name. -/
theorem covers_hard_link : ∃ a b c : PathClaim, a.covers b = true ∧ c.conflictsWith b = true ∧ c.conflictsWith a = false :=
  ⟨⟨⟨[.rootDir, .normal [97]], [], [.rootDir, .normal [97]], none, none⟩, .write, .subtree⟩,
    ⟨⟨[.rootDir, .normal [97], .normal [49]], [], [.rootDir, .normal [97], .normal [49]], some 1, some 5⟩, .write, .exact⟩,
    ⟨⟨[.rootDir, .normal [98]], [], [.rootDir, .normal [98]], some 1, some 5⟩, .write, .exact⟩, by decide⟩

end PathClaim

end Concurrency
