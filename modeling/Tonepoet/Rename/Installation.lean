import Tonepoet.Rename.Staging

/-!
# Installation

Installing from the top of the tree down finds a directory and a free place for every destination exactly when the moved tree has a
directory above each destination and nothing else at it.
-/

namespace Rename

open Concurrency (Component Path)
open PathTree

/-- What a move puts at `q`. -/
def Moved (fs : DirectoryTree) (A : Set (Path)) (move : RenameIntent) (q : Path) (v : Node) : Prop :=
  ∃ r, q = move.destination ++ r ∧ RemainsUnder fs.node A move.source r v

/-- The tree with the moved subtrees at their destinations. -/
def MovedTree (fs : DirectoryTree) (A : Set (Path)) (moves : List RenameIntent) (q : Path)
    (v : Node) : Prop := Remains fs.node A q v ∨ ∃ move ∈ moves, Moved fs A move q v

/-- What a move needs: a directory above its destination when all has moved, nothing at the destination that stays there, and nothing at it
that another move brings along. -/
structure Placeable (fs : DirectoryTree) (A : Set (Path)) (moves : List RenameIntent) (move : RenameIntent) : Prop where
  parent : MovedTree fs A moves move.destination.dropLast .directory
  vacated : ∀ v, ¬ Remains fs.node A move.destination v
  free : ∀ other ∈ moves, ∀ r, r ≠ [] → move.destination = other.destination ++ r → ∀ v, ¬ RemainsUnder fs.node A other.source r v

def RenameTransactionEntry.intent (self : RenameTransactionEntry) : RenameIntent := ⟨self.source, self.destination⟩

variable {fs : DirectoryTree} {A : Set (Path)} {entries done : List RenameTransactionEntry} {entry : RenameTransactionEntry}
  {staged : Path → Option FileTree} {tree : FileTree}

theorem movedTree_map {q : Path} {v : Node} :
    MovedTree fs A (done.map RenameTransactionEntry.intent) q v ↔ Remains fs.node A q v ∨ ∃ entry ∈ done, Moved fs A entry.intent q v := by
  simp only [MovedTree, List.mem_map, exists_exists_and_eq_and]

theorem DirectoryTree.closed (fs : DirectoryTree) : Closed fs.node := by
  intro p q
  induction q using List.reverseRecOn with
  | nil => rw [List.append_nil]; exact id
  | append_singleton q component ih =>
    intro h
    rw [← List.append_assoc] at h
    exact ih (by rw [fs.parent _ _ h]; exact nofun)

theorem remains_closed {p q : Path} {v : Node} (h : Remains fs.node A (p ++ q) v) : ∃ v, Remains fs.node A p v := by
  obtain ⟨w, hw⟩ := Option.ne_none_iff_exists'.1 (fs.closed p q (by rw [h.1]; exact nofun))
  exact ⟨w, hw, fun a ha hpre => h.2 a ha (hpre.trans (List.prefix_append _ _))⟩

theorem remainsUnder_closed {s p q : Path} {v : Node} (h : RemainsUnder fs.node A s (p ++ q) v) :
    ∃ v, RemainsUnder fs.node A s p v := by
  obtain ⟨hq, hout⟩ := h
  rw [← List.append_assoc] at hq hout
  obtain ⟨w, hw⟩ := Option.ne_none_iff_exists'.1 (fs.closed (s ++ p) q (by rw [hq]; exact nofun))
  exact ⟨w, hw, fun a ha habove hpre => hout a ha habove (hpre.trans (List.prefix_append _ _))⟩

/-- The tree when the entries of `done` are installed. -/
structure Installed (fs : DirectoryTree) (A : Set Path) (done : List RenameTransactionEntry) (tree : FileTree) : Prop where
  node : ∀ q v, tree q = some v ↔ MovedTree fs A (done.map RenameTransactionEntry.intent) q v
  closed : Closed tree

theorem installed_nil (h : ∀ q v, tree q = some v ↔ Remains fs.node A q v) : Installed fs A [] tree where
  node q v := by
    rw [movedTree_map, h]
    exact ⟨.inl, fun hq => hq.resolve_right fun ⟨_, hmem, _⟩ => List.not_mem_nil hmem⟩
  closed p q hne := by
    obtain ⟨v, hv⟩ := Option.ne_none_iff_exists'.1 hne
    obtain ⟨w, hw⟩ := remains_closed ((h _ v).1 hv)
    rw [(h p w).2 hw]
    exact nofun

/-- Which entries matter to a destination: those with a shorter one, and they are installed before. -/
structure Next (entries done : List RenameTransactionEntry) (entry : RenameTransactionEntry) : Prop where
  subset : ∀ a ∈ done, a ∈ entries
  shorter : ∀ a ∈ entries, a.destination.length < entry.destination.length → a ∈ done
  distinct : ∀ a ∈ done, a.destination ≠ entry.destination
  nonempty : entry.destination ≠ []

theorem Next.placeable_iff (h : Next entries done entry) (htree : Installed fs A done tree) :
    tree entry.destination.dropLast = some .directory ∧ tree entry.destination = none ↔
      Placeable fs A (entries.map RenameTransactionEntry.intent) entry.intent := by
  have hlength : entry.destination.dropLast.length < entry.destination.length := by
    have := List.length_pos_iff.2 h.nonempty
    rw [List.length_dropLast]
    omega
  have hparent : tree entry.destination.dropLast = some .directory ↔
      MovedTree fs A (entries.map RenameTransactionEntry.intent) entry.destination.dropLast .directory := by
    rw [htree.node, movedTree_map, movedTree_map]
    refine or_congr_right ⟨?_, ?_⟩
    · rintro ⟨a, ha, hmoved⟩
      exact ⟨a, h.subset a ha, hmoved⟩
    · rintro ⟨a, ha, r, heq, hr⟩
      refine ⟨a, h.shorter a ha ?_, r, heq, hr⟩
      have hle := congrArg List.length heq
      rw [List.length_append] at hle
      exact lt_of_le_of_lt (by change a.destination.length ≤ _; change _ = a.destination.length + _ at hle; omega) hlength
  have hfree : tree entry.destination = none ↔ (∀ v, ¬ Remains fs.node A entry.destination v) ∧
      ∀ other ∈ entries.map RenameTransactionEntry.intent, ∀ r, r ≠ [] → entry.destination = other.destination ++ r →
        ∀ v, ¬ RemainsUnder fs.node A other.source r v := by
    rw [Option.eq_none_iff_forall_ne_some]
    constructor
    · intro hnone
      refine ⟨fun v hv => hnone v ((htree.node _ _).2 (.inl hv)), ?_⟩
      rw [List.forall_mem_map]
      intro a ha r hr heq v hv
      refine hnone v ((htree.node _ _).2 (movedTree_map.2 (.inr ⟨a, h.shorter a ha ?_, r, heq, hv⟩)))
      have hle := congrArg List.length heq
      have hpos := List.length_pos_iff.2 hr
      rw [List.length_append] at hle
      change _ = a.destination.length + _ at hle
      omega
    · rintro ⟨hvacated, hothers⟩ v hv
      rcases movedTree_map.1 ((htree.node _ _).1 hv) with hrest | ⟨a, ha, r, heq, hr⟩
      · exact hvacated v hrest
      · refine hothers a.intent (List.mem_map_of_mem (h.subset a ha)) r ?_ heq v hr
        rintro rfl
        exact h.distinct a ha ((List.append_nil _).symm.trans heq.symm)
  rw [hparent, hfree]
  exact ⟨fun hall => ⟨hall.1, hall.2.1, hall.2.2⟩, fun hall => ⟨hall.parent, hall.vacated, hall.free⟩⟩

/-- The subtrees under the staging names. -/
def StagedSubtrees (fs : DirectoryTree) (A : Set Path) (entries : List RenameTransactionEntry) (staged : Path → Option FileTree) : Prop :=
  ∀ entry ∈ entries, ∃ subtree, staged entry.source = some subtree ∧ ∀ r v, subtree r = some v ↔ RemainsUnder fs.node A entry.source r v

/-- **An installation step** succeeds exactly when its move is placeable. -/
theorem Next.step (h : Next entries done entry) (hentry : entry ∈ entries) (hlast : pathParent entry.destination = some entry.destination.dropLast)
    (hstaged : StagedSubtrees fs A entries staged) (htree : Installed fs A done tree) :
    (∀ tree', installEntry staged tree entry = some tree' → Installed fs A (done ++ [entry]) tree') ∧
      ((installEntry staged tree entry).isSome ↔ Placeable fs A (entries.map RenameTransactionEntry.intent) entry.intent) := by
  obtain ⟨subtree, hsubtree, hremains⟩ := hstaged entry hentry
  have hplaceable := h.placeable_iff htree
  have hinstall : installEntry staged tree entry = if tree entry.destination.dropLast = some .directory ∧ (tree entry.destination).isNone then
      some (attach tree entry.destination subtree) else none := by
    rw [installEntry, hsubtree, hlast]
  rw [← hplaceable, hinstall, ← Option.isNone_iff_eq_none]
  refine ⟨fun tree' htree' => ?_, ?_⟩
  · split at htree'
    · rename_i hready
      obtain rfl := Option.some.inj htree'
      refine ⟨fun q v => ?_, htree.closed.attach ?_ ?_⟩
      · rw [attach_eq_some, List.map_append, List.map_singleton]
        have hsplit : MovedTree fs A (done.map RenameTransactionEntry.intent ++ [entry.intent]) q v ↔
            MovedTree fs A (done.map RenameTransactionEntry.intent) q v ∨ Moved fs A entry.intent q v := by
          simp only [MovedTree, List.mem_append, List.mem_singleton, or_and_right, exists_or, exists_eq_left, or_assoc]
        rw [hsplit, ← htree.node]
        refine or_congr ⟨fun hq => hq.2, fun hq => ⟨fun hpre => ?_, hq⟩⟩ ?_
        · rw [htree.closed.free (Option.isNone_iff_eq_none.1 hready.2) hpre] at hq
          cases hq
        · exact exists_congr fun r => and_congr_right fun _ => hremains r v
      · intro p q hne
        obtain ⟨v, hv⟩ := Option.ne_none_iff_exists'.1 hne
        obtain ⟨w, hw⟩ := remainsUnder_closed ((hremains _ v).1 hv)
        rw [(hremains p w).2 hw]
        exact nofun
      · intro q hq hnone
        obtain ⟨r, hr⟩ := hq.1
        have hrest : r ≠ [] := by
          rintro rfl
          exact hq.2 ((List.append_nil q).symm.trans hr)
        have hpre : q <+: entry.destination.dropLast := by
          rw [← hr, List.dropLast_append_of_ne_nil hrest]
          exact List.prefix_append _ _
        rw [htree.closed.free hnone hpre] at hready
        exact absurd hready.1 nofun
    · cases htree'
  · split
    · exact iff_of_true rfl (by assumption)
    · exact iff_of_false Bool.false_ne_true (by assumption)

/-- **Installing in an order from the top of the tree down** succeeds exactly when every move is placeable, and then all has moved. -/
theorem Installed.run {todo : List RenameTransactionEntry} (h : Installed fs A done tree) (hstaged : StagedSubtrees fs A entries staged)
    (hperm : (done ++ todo).Perm entries) (hnodup : (entries.map RenameTransactionEntry.destination).Nodup)
    (hlast : ∀ entry ∈ entries, entry.destination ≠ [] ∧ pathParent entry.destination = some entry.destination.dropLast)
    (hsorted : (done ++ todo).Pairwise fun l r => l.destination.length ≤ r.destination.length) :
    (∀ final, todo.foldlM (installEntry staged) tree = some final → Installed fs A (done ++ todo) final) ∧
      ((todo.foldlM (installEntry staged) tree).isSome ↔
        ∀ entry ∈ todo, Placeable fs A (entries.map RenameTransactionEntry.intent) entry.intent) := by
  induction todo generalizing done tree with
  | nil =>
    refine ⟨?_, iff_of_true rfl fun _ hmem => absurd hmem List.not_mem_nil⟩
    rintro _ ⟨⟩
    rwa [List.append_nil]
  | cons entry todo ih =>
    have hmem : entry ∈ entries := hperm.subset (List.mem_append_right _ List.mem_cons_self)
    have hnodup' : ((done ++ entry :: todo).map RenameTransactionEntry.destination).Nodup := (hperm.map _).nodup_iff.2 hnodup
    have hnext : Next entries done entry := by
      refine ⟨fun a ha => hperm.subset (List.mem_append_left _ ha), fun a ha hlt => ?_, fun a ha => ?_, (hlast entry hmem).1⟩
      · rcases List.mem_append.1 (hperm.symm.subset ha) with hdone | hrest
        · exact hdone
        · rcases List.mem_cons.1 hrest with rfl | hrest
          · exact absurd hlt (lt_irrefl _)
          · exact absurd hlt (not_lt.2 ((List.pairwise_cons.1 (List.pairwise_append.1 hsorted).2.1).1 a hrest))
      · rw [List.map_append, List.nodup_append] at hnodup'
        exact hnodup'.2.2 _ (List.mem_map_of_mem ha) _ (List.mem_map_of_mem List.mem_cons_self)
    obtain ⟨hinstalled, hsome⟩ := hnext.step hmem (hlast entry hmem).2 hstaged h
    rw [List.append_cons] at hperm hsorted ⊢
    rw [List.foldlM_cons, List.forall_mem_cons, ← hsome]
    cases hstep : installEntry staged tree entry with
    | none => exact ⟨nofun, iff_of_false Bool.false_ne_true fun hall => Bool.false_ne_true hall.1⟩
    | some tree' =>
      obtain ⟨hfinal, hrun⟩ := ih (hinstalled tree' hstep) hperm hsorted
      exact ⟨hfinal, hrun.trans ⟨fun hall => ⟨rfl, hall⟩, fun hall => hall.2⟩⟩

end Rename
