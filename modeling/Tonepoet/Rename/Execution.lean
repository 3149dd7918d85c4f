import Tonepoet.Rename.RenamePlan

/-!
# Carrying a rename plan out (actions.rs:11964-12026, 12149-12200, 12748-12793)

Every source is first moved to a staging name of its own; one beneath a staged ancestor is looked up beneath the closest. Then
the destinations are installed, each beneath a directory that stands and where nothing stands.
-/

namespace Rename

open Concurrency (Component Path startsWith)
open PathTree

abbrev FileTree := PathTree.Tree Component Node

/-- What stands outside of the staging names, and what is staged, by its source. -/
structure RenameState where
  tree : FileTree
  staged : Path → Option FileTree

/-- The closest selected ancestor, in `effective_rename_source` (actions.rs:12748-12793). -/
def closestAncestor (entries : List RenameTransactionEntry) (source : Path) : Option Path :=
  entries.foldl (fun closest entry =>
    if entry.source ≠ source ∧ startsWith source entry.source ∧ closest.all (fun current => pathDepth current < pathDepth entry.source) then
      some entry.source
    else closest) none

/-- `stage_rename_operation` (actions.rs:12028), where it finds its source. -/
def stageEntry (entries : List RenameTransactionEntry) (state : RenameState) (entry : RenameTransactionEntry) : Option RenameState :=
  match closestAncestor entries entry.source with
  | none =>
    if (state.tree entry.source).isNone then none
    else some ⟨detach state.tree entry.source, fun source => if source = entry.source then some (under state.tree entry.source) else state.staged source⟩
  | some ancestor =>
    match state.staged ancestor with
    | none => none
    | some subtree =>
      let relative := entry.source.drop ancestor.length
      if (subtree relative).isNone then none
      else some { state with
        staged := fun source =>
          if source = entry.source then some (under subtree relative)
          else if source = ancestor then some (detach subtree relative) else state.staged source }

/-- `publish_rename_operation` (actions.rs:12149), where it finds a directory for its destination and nothing at it. -/
def installEntry (staged : Path → Option FileTree) (tree : FileTree) (entry : RenameTransactionEntry) : Option FileTree :=
  match staged entry.source, pathParent entry.destination with
  | some subtree, some parent =>
    if tree parent = some .directory ∧ (tree entry.destination).isNone then some (attach tree entry.destination subtree) else none
  | _, _ => none

def inOrder (plan : RenameTransactionPlan) (order : List ℕ) : List RenameTransactionEntry := order.filterMap fun index => plan.entries[index]?

def stageAll (fs : DirectoryTree) (plan : RenameTransactionPlan) : Option RenameState :=
  (inOrder plan plan.stagingOrder).foldlM (stageEntry plan.entries) ⟨fs.node, fun _ => none⟩

/-- `apply_rename_transaction` (actions.rs:11964), without the journal. -/
def carryOut (fs : DirectoryTree) (plan : RenameTransactionPlan) : Option FileTree := do
  let state ← stageAll fs plan
  (inOrder plan plan.installationOrder).foldlM (installEntry state.staged) state.tree

/-! ## Orders -/

variable {plan : RenameTransactionPlan} {entries : List RenameTransactionEntry} {source ancestor : Path}

theorem filterMap_range_getElem? {β : Type} (xs : List β) : (List.range xs.length).filterMap (fun i => xs[i]?) = xs := by
  induction xs using List.reverseRecOn with
  | nil => rfl
  | append_singleton xs x ih =>
    have hfront : (List.range xs.length).filterMap (fun i => (xs ++ [x])[i]?) = (List.range xs.length).filterMap fun i => xs[i]? :=
      List.filterMap_congr fun i hi => List.getElem?_append_left (List.mem_range.1 hi)
    rw [List.length_append, List.length_singleton, List.range_succ, List.filterMap_append, hfront, ih, List.filterMap_cons,
      List.getElem?_concat_length]
    rfl

/-- An order of the entries has all of them, and is sorted. -/
theorem inOrder_spec {β : Type} [LinearOrder β] (plan : RenameTransactionPlan) (key : ℕ → β) :
    (inOrder plan ((List.range plan.entries.length).mergeSort fun left right => key left ≤ key right)).Perm plan.entries ∧
      ∀ depth : RenameTransactionEntry → ℕ, (∀ (i j : ℕ) (l r : RenameTransactionEntry), plan.entries[i]? = some l → plan.entries[j]? = some r →
          key i ≤ key j → depth l ≤ depth r) →
        (inOrder plan ((List.range plan.entries.length).mergeSort fun left right => key left ≤ key right)).Pairwise
          fun l r => depth l ≤ depth r := by
  constructor
  · have hperm := (List.mergeSort_perm (List.range plan.entries.length) fun left right => key left ≤ key right).filterMap
      fun index => plan.entries[index]?
    rw [filterMap_range_getElem?] at hperm
    exact hperm
  · intro depth hdepth
    have hsorted : ((List.range plan.entries.length).mergeSort fun left right => decide (key left ≤ key right)).Pairwise
        fun left right => decide (key left ≤ key right) = true :=
      List.pairwise_mergeSort (by simpa using fun a b c => le_trans) (by simpa using fun a b => le_total (key a) (key b)) _
    refine List.Pairwise.filterMap _ ?_ hsorted
    intro i j hij l hl r hr
    exact hdepth i j l r hl hr (by simpa using hij)

/-- **The closest ancestor** is the longest of the sources above a path. -/
theorem closestAncestor_spec (entries : List RenameTransactionEntry) (source : Path) :
    (closestAncestor entries source = none → ∀ entry ∈ entries, ¬ Above entry.source source) ∧
      ∀ ancestor, closestAncestor entries source = some ancestor →
        (∃ entry ∈ entries, entry.source = ancestor) ∧ Above ancestor source ∧
          ∀ entry ∈ entries, Above entry.source source → entry.source.length ≤ ancestor.length := by
  induction entries using List.reverseRecOn with
  | nil => exact ⟨fun _ _ h => (List.not_mem_nil h).elim, nofun⟩
  | append_singleton entries entry ih =>
    obtain ⟨hnone, hsome⟩ := ih
    have habove : entry.source ≠ source ∧ startsWith source entry.source = true ↔ Above entry.source source := by
      rw [startsWith, List.isPrefixOf_iff_prefix, Above, and_comm]
    have hstep : closestAncestor (entries ++ [entry]) source =
        if entry.source ≠ source ∧ startsWith source entry.source ∧
            (closestAncestor entries source).all (fun current => pathDepth current < pathDepth entry.source) then some entry.source
        else closestAncestor entries source := by
      rw [closestAncestor, List.foldl_append]
      rfl
    rw [hstep]
    split
    · rename_i hcloser
      obtain ⟨hne, hstart, hcurrent⟩ := hcloser
      refine ⟨nofun, ?_⟩
      rintro _ ⟨⟩
      refine ⟨⟨entry, List.mem_append_right _ List.mem_cons_self, rfl⟩, habove.1 ⟨hne, hstart⟩, fun other hother hother' => ?_⟩
      rcases List.mem_append.1 hother with hother | hother
      · cases hclosest : closestAncestor entries source with
        | none => exact absurd hother' (hnone hclosest other hother)
        | some current =>
          rw [hclosest, Option.all_some, decide_eq_true_eq] at hcurrent
          exact ((hsome current hclosest).2.2 other hother hother').trans hcurrent.le
      · rw [List.mem_singleton.1 hother]
    · rename_i hfarther
      have hfarther' : (closestAncestor entries source).all (fun current => pathDepth current < pathDepth entry.source) = true →
          ¬ Above entry.source source := fun hall ha => hfarther ⟨(habove.2 ha).1, (habove.2 ha).2, hall⟩
      refine ⟨fun hclosest other hother => ?_, fun ancestor hclosest => ?_⟩
      · rcases List.mem_append.1 hother with hother | hother
        · exact hnone hclosest other hother
        · rw [List.mem_singleton.1 hother]
          exact hfarther' (by rw [hclosest]; rfl)
      · obtain ⟨⟨other, hmem, heq⟩, ha, hlongest⟩ := hsome ancestor hclosest
        refine ⟨⟨other, List.mem_append_left _ hmem, heq⟩, ha, fun other hother hother' => ?_⟩
        rcases List.mem_append.1 hother with hother | hother
        · exact hlongest other hother hother'
        · rw [List.mem_singleton.1 hother] at hother' ⊢
          by_contra hlonger
          rw [hclosest, Option.all_some, decide_eq_true_eq] at hfarther'
          exact hfarther' (not_le.1 hlonger) hother'

end Rename
