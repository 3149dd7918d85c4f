import Tonepoet.Rename.Execution

/-!
# Staging

When sources are staged from the top of the tree down, every one is found, and in the end each staging name has what stood below its
source and not below a further source.
-/

namespace Rename

open PathTree

def sources (entries : List RenameTransactionEntry) : Set (List Concurrency.Component) := {path | ∃ entry ∈ entries, entry.source = path}

/-- What is left of the tree, and what is staged, when the entries of `done` are staged. -/
structure Staged (fs : DirectoryTree) (done : List RenameTransactionEntry) (state : RenameState) : Prop where
  tree : ∀ q v, state.tree q = some v ↔ Remains fs.node (sources done) q v
  staged : ∀ entry ∈ done, ∃ subtree, state.staged entry.source = some subtree ∧
    ∀ r v, subtree r = some v ↔ RemainsUnder fs.node (sources done) entry.source r v

variable {fs : DirectoryTree} {entries done : List RenameTransactionEntry} {state : RenameState} {entry : RenameTransactionEntry}

theorem mem_sources_concat {path : List Concurrency.Component} :
    path ∈ sources (done ++ [entry]) ↔ path ∈ sources done ∨ path = entry.source := by
  constructor
  · rintro ⟨other, hother, rfl⟩
    rcases List.mem_append.1 hother with hother | hother
    · exact .inl ⟨other, hother, rfl⟩
    · exact .inr (congrArg _ (List.mem_singleton.1 hother))
  · rintro (⟨other, hother, rfl⟩ | rfl)
    · exact ⟨other, List.mem_append_left _ hother, rfl⟩
    · exact ⟨entry, List.mem_append_right _ List.mem_cons_self, rfl⟩

/-- The tree without a further source. -/
theorem Staged.detach_tree (h : Staged fs done state) {q : List Concurrency.Component} {v : Node} :
    detach state.tree entry.source q = some v ↔ Remains fs.node (sources (done ++ [entry])) q v := by
  rw [detach_eq_some, h.tree]
  constructor
  · rintro ⟨⟨hq, hout⟩, hnot⟩
    refine ⟨hq, fun a ha => ?_⟩
    rcases mem_sources_concat.1 ha with ha | rfl
    · exact hout a ha
    · exact hnot
  · rintro ⟨hq, hout⟩
    exact ⟨⟨hq, fun a ha => hout a (mem_sources_concat.2 (.inl ha))⟩, hout _ (mem_sources_concat.2 (.inr rfl))⟩

/-- A subtree that does not have the further source, or has it below another, is as it was. -/
theorem remainsUnder_concat {p r : List Concurrency.Component} {v : Node}
    (hinner : Above p entry.source → ∃ a ∈ sources done, Above p a ∧ a <+: entry.source) :
    RemainsUnder fs.node (sources done) p r v ↔ RemainsUnder fs.node (sources (done ++ [entry])) p r v := by
  constructor
  · rintro ⟨hr, hout⟩
    refine ⟨hr, fun a ha habove hpre => ?_⟩
    rcases mem_sources_concat.1 ha with ha | rfl
    · exact hout a ha habove hpre
    · obtain ⟨b, hb, hpb, hbe⟩ := hinner habove
      exact hout b hb hpb (hbe.trans hpre)
  · rintro ⟨hr, hout⟩
    exact ⟨hr, fun a ha => hout a (mem_sources_concat.2 (.inl ha))⟩

/-- What a further source has below it, when none of the others does. -/
theorem remainsUnder_self {r : List Concurrency.Component} {v : Node} (hnotBelow : ∀ a ∈ sources done, ¬ entry.source <+: a) :
    RemainsUnder fs.node (sources (done ++ [entry])) entry.source r v ↔ fs.node (entry.source ++ r) = some v := by
  constructor
  · exact fun h => h.1
  · intro h
    refine ⟨h, fun a ha habove => ?_⟩
    rcases mem_sources_concat.1 ha with ha | rfl
    · exact absurd habove.1 (hnotBelow a ha)
    · exact absurd rfl habove.2

/-- **A staging step** finds its source, when the sources above it are staged and none below it is. -/
theorem Staged.step (h : Staged fs done state) (hentry : fs.node entry.source ≠ none) (hsub : ∀ a ∈ done, a ∈ entries)
    (habove : ∀ a ∈ entries, Above a.source entry.source → a ∈ done) (hnotBelow : ∀ a ∈ sources done, ¬ entry.source <+: a) :
    ∃ state', stageEntry entries state entry = some state' ∧ Staged fs (done ++ [entry]) state' := by
  obtain ⟨v, hv⟩ := Option.ne_none_iff_exists'.1 hentry
  obtain ⟨hnone, hsome⟩ := closestAncestor_spec entries entry.source
  have hne : ∀ a ∈ done, a.source ≠ entry.source := fun a ha heq => hnotBelow _ ⟨a, ha, rfl⟩ (heq ▸ List.prefix_refl _)
  rw [stageEntry]
  cases hclosest : closestAncestor entries entry.source with
  | none =>
    have hroot := hnone hclosest
    have hout : ∀ r, ∀ a ∈ sources done, ¬ a <+: entry.source ++ r := by
      rintro r _ ⟨a, ha, rfl⟩ hpre
      rcases List.prefix_or_prefix_of_prefix hpre (List.prefix_append entry.source r) with hle | hle
      · exact hroot a (hsub a ha) ⟨hle, hne a ha⟩
      · exact hnotBelow _ ⟨a, ha, rfl⟩ hle
    have hfound : ∀ r v, state.tree (entry.source ++ r) = some v ↔ fs.node (entry.source ++ r) = some v := by
      intro r v
      rw [h.tree]
      exact ⟨fun hr => hr.1, fun hr => ⟨hr, hout r⟩⟩
    have hthere : state.tree entry.source = some v := by
      have := (hfound [] v).2
      rw [List.append_nil] at this
      exact this hv
    dsimp only
    rw [hthere, Option.isNone_some, if_neg Bool.false_ne_true]
    refine ⟨_, rfl, fun q v => h.detach_tree, fun other hother => ?_⟩
    rcases List.mem_append.1 hother with hother | hother
    · obtain ⟨subtree, hsubtree, hremains⟩ := h.staged other hother
      refine ⟨subtree, (if_neg (hne other hother)).trans hsubtree, fun r v => (hremains r v).trans (remainsUnder_concat fun ha => ?_)⟩
      exact absurd ha (hroot other (hsub other hother))
    · rw [List.mem_singleton.1 hother]
      exact ⟨_, if_pos rfl, fun r v => (hfound r v).trans (remainsUnder_self hnotBelow).symm⟩
  | some ancestor =>
    obtain ⟨⟨closest, hmem, rfl⟩, ha, hlongest⟩ := hsome ancestor hclosest
    have hstaged := habove closest hmem ha
    obtain ⟨subtree, hsubtree, hremains⟩ := h.staged closest hstaged
    obtain ⟨relative, hrelative⟩ := ha.1
    have hdrop : entry.source.drop closest.source.length = relative := by rw [← hrelative, List.drop_left]
    have hjoin : ∀ r, closest.source ++ (relative ++ r) = entry.source ++ r := fun r => by rw [← List.append_assoc, hrelative]
    have hfound : ∀ r v, subtree (relative ++ r) = some v ↔ fs.node (entry.source ++ r) = some v := by
      intro r v
      rw [hremains, RemainsUnder, hjoin]
      refine ⟨fun hr => hr.1, fun hr => ⟨hr, ?_⟩⟩
      rintro _ ⟨a, ha', rfl⟩ hbelow hpre
      rcases List.prefix_or_prefix_of_prefix hpre (List.prefix_append entry.source r) with hle | hle
      · have := hlongest a (hsub a ha') ⟨hle, hne a ha'⟩
        exact absurd hbelow.length_lt (not_lt.2 this)
      · exact hnotBelow _ ⟨a, ha', rfl⟩ hle
    have hthere : subtree relative = some v := by
      have := (hfound [] v).2
      rw [List.append_nil, List.append_nil] at this
      exact this hv
    dsimp only
    rw [hsubtree, hdrop]
    dsimp only
    rw [hthere, Option.isNone_some, if_neg Bool.false_ne_true]
    refine ⟨_, rfl, fun q v => ?_, fun other hother => ?_⟩
    · -- the tree had lost the source with its ancestor
      rw [h.tree]
      constructor
      · rintro ⟨hq, hout⟩
        refine ⟨hq, fun a ha' => ?_⟩
        rcases mem_sources_concat.1 ha' with ha' | rfl
        · exact hout a ha'
        · exact fun hpre => hout _ ⟨closest, hstaged, rfl⟩ (ha.1.trans hpre)
      · rintro ⟨hq, hout⟩
        exact ⟨hq, fun a ha' => hout a (mem_sources_concat.2 (.inl ha'))⟩
    · rcases List.mem_append.1 hother with hother | hother
      · by_cases heq : other.source = closest.source
        · refine ⟨detach subtree relative, ?_, fun r v => ?_⟩
          · dsimp only
            rw [if_neg (hne other hother), if_pos heq]
          · rw [detach_eq_some, hremains, heq]
            constructor
            · rintro ⟨⟨hr, hout⟩, hnot⟩
              refine ⟨hr, fun a ha' hbelow hpre => ?_⟩
              rcases mem_sources_concat.1 ha' with ha' | rfl
              · exact hout a ha' hbelow hpre
              · rw [← hrelative] at hpre
                exact hnot (List.prefix_append_right_inj closest.source |>.1 hpre)
            · rintro ⟨hr, hout⟩
              refine ⟨⟨hr, fun a ha' => hout a (mem_sources_concat.2 (.inl ha'))⟩, fun hpre => ?_⟩
              refine hout _ (mem_sources_concat.2 (.inr rfl)) ha ?_
              rw [← hrelative]
              exact (List.prefix_append_right_inj closest.source).2 hpre
        · obtain ⟨subtree', hsubtree', hremains'⟩ := h.staged other hother
          refine ⟨subtree', ?_, fun r v => (hremains' r v).trans (remainsUnder_concat fun hbelow => ?_)⟩
          · dsimp only
            rw [if_neg (hne other hother), if_neg heq]
            exact hsubtree'
          · refine ⟨closest.source, ⟨closest, hstaged, rfl⟩, ?_, ha.1⟩
            rcases above_or_eq_of_prefix hbelow.1 ha.1 (hlongest other (hsub other hother) hbelow) with hcloser | hsame
            · exact hcloser
            · exact absurd hsame heq
      · rw [List.mem_singleton.1 hother]
        exact ⟨_, if_pos rfl, fun r v => (hfound r v).trans (remainsUnder_self hnotBelow).symm⟩

/-- **Staging in an order from the top of the tree down** finds every source. -/
theorem Staged.run {todo : List RenameTransactionEntry} (h : Staged fs done state) (hexists : ∀ entry ∈ entries, fs.node entry.source ≠ none)
    (hperm : (done ++ todo).Perm entries) (hnodup : (entries.map RenameTransactionEntry.source).Nodup)
    (hsorted : (done ++ todo).Pairwise fun l r => l.source.length ≤ r.source.length) :
    ∃ state', todo.foldlM (stageEntry entries) state = some state' ∧ Staged fs (done ++ todo) state' := by
  induction todo generalizing done state with
  | nil => exact ⟨state, rfl, by rwa [List.append_nil]⟩
  | cons entry todo ih =>
    have hmem : entry ∈ entries := hperm.subset (List.mem_append_right _ List.mem_cons_self)
    have hnodup' : ((done ++ entry :: todo).map RenameTransactionEntry.source).Nodup := (hperm.map _).nodup_iff.2 hnodup
    have hdistinct : ∀ a ∈ done, a.source ≠ entry.source := by
      intro a ha
      rw [List.map_append, List.nodup_append] at hnodup'
      exact hnodup'.2.2 _ (List.mem_map_of_mem ha) _ (List.mem_map_of_mem List.mem_cons_self)
    have hshorter : ∀ a ∈ done, a.source.length ≤ entry.source.length := fun a ha =>
      (List.pairwise_append.1 hsorted).2.2 a ha entry List.mem_cons_self
    have hlater : ∀ a ∈ todo, entry.source.length ≤ a.source.length := fun a ha =>
      (List.pairwise_cons.1 (List.pairwise_append.1 hsorted).2.1).1 a ha
    have hsub : ∀ a ∈ done, a ∈ entries := fun a ha => hperm.subset (List.mem_append_left _ ha)
    have habove : ∀ a ∈ entries, Above a.source entry.source → a ∈ done := by
      intro a ha hab
      have hlt := hab.length_lt
      rcases List.mem_append.1 (hperm.symm.subset ha) with hdone | hrest
      · exact hdone
      · rcases List.mem_cons.1 hrest with rfl | hrest
        · exact absurd rfl hab.2
        · exact absurd (hlater a hrest) (not_le.2 hlt)
    have hnotBelow : ∀ a ∈ sources done, ¬ entry.source <+: a := by
      rintro _ ⟨a, ha, rfl⟩ hpre
      exact hdistinct a ha (hpre.eq_of_length (le_antisymm hpre.length_le (hshorter a ha))).symm
    obtain ⟨state', hstep, hstaged⟩ := h.step (hexists entry hmem) hsub habove hnotBelow
    rw [List.append_cons] at hperm hsorted ⊢
    obtain ⟨final, hrun, hfinal⟩ := ih hstaged hperm hsorted
    exact ⟨final, by rw [List.foldlM_cons, hstep]; exact hrun, hfinal⟩

/-- Before the first step. -/
theorem staged_nil (fs : DirectoryTree) : Staged fs [] ⟨fs.node, fun _ => none⟩ where
  tree q v := ⟨fun h => ⟨h, by rintro _ ⟨a, ha, rfl⟩; exact absurd ha List.not_mem_nil⟩, fun h => h.1⟩
  staged entry h := absurd h List.not_mem_nil

end Rename
