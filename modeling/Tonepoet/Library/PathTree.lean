import Mathlib.Data.List.Basic

/-!
# Trees of paths

A tree says what stands at each path. The subtree at a path can be taken out and put in elsewhere, and of a family of
subtrees, some inside others, each keeps what is not below an inner one.
-/

namespace PathTree

variable {α ν : Type*}

abbrev Tree (α ν : Type*) := List α → Option ν

/-- What stands at `p` and below it. -/
def under (t : Tree α ν) (p : List α) : Tree α ν := fun q => t (p ++ q)

/-- What stands above an entry is there too. -/
def Closed (t : Tree α ν) : Prop := ∀ p q, t (p ++ q) ≠ none → t p ≠ none

/-- `p` is above `q`. -/
def Above (p q : List α) : Prop := p <+: q ∧ p ≠ q

/-- What is left of a tree when the subtrees at the paths in `A` are taken out. -/
def Remains (t : Tree α ν) (A : Set (List α)) (q : List α) (v : ν) : Prop := t q = some v ∧ ∀ a ∈ A, ¬ a <+: q

/-- What is left of the subtree at `p` when those at the paths in `A` are taken out of it. -/
def RemainsUnder (t : Tree α ν) (A : Set (List α)) (p r : List α) (v : ν) : Prop :=
  t (p ++ r) = some v ∧ ∀ a ∈ A, Above p a → ¬ a <+: p ++ r

variable {t s : Tree α ν} {A B : Set (List α)} {p q r : List α} {v : ν}

theorem Above.length_lt (h : Above p q) : p.length < q.length := by
  obtain ⟨⟨r, rfl⟩, hne⟩ := h
  rw [List.length_append]
  have hr : r ≠ [] := by
    rintro rfl
    exact hne (List.append_nil p).symm
  have := List.length_pos_iff.2 hr
  omega

/-- Of two paths above one, the shorter is above the longer. -/
theorem above_or_eq_of_prefix (hp : p <+: r) (hq : q <+: r) (hle : p.length ≤ q.length) : Above p q ∨ p = q := by
  by_cases heq : p = q
  · exact .inr heq
  · exact .inl ⟨List.prefix_of_prefix_length_le hp hq hle, heq⟩

/-- Nothing stands below a free path. -/
theorem Closed.free (ht : Closed t) (hfree : t p = none) (h : p <+: q) : t q = none := by
  obtain ⟨r, rfl⟩ := h
  by_contra hne
  exact ht p r hne hfree

/-! ## Taking out and putting in -/

variable [DecidableEq α]

/-- The tree without what stands at `p` and below it. -/
def detach (t : Tree α ν) (p : List α) : Tree α ν := fun q => if p <+: q then none else t q

/-- The tree with `s` at `p`. -/
def attach (t : Tree α ν) (p : List α) (s : Tree α ν) : Tree α ν := fun q => if p <+: q then s (q.drop p.length) else t q

theorem detach_eq_some : detach t p q = some v ↔ t q = some v ∧ ¬ p <+: q := by
  rw [detach]
  split
  · rename_i h
    exact ⟨nofun, fun hq => absurd h hq.2⟩
  · rename_i h
    exact ⟨fun hq => ⟨hq, h⟩, fun hq => hq.1⟩

theorem attach_eq_some :
    attach t p s q = some v ↔ (¬ p <+: q ∧ t q = some v) ∨ ∃ r, q = p ++ r ∧ s r = some v := by
  rw [attach]
  split
  · rename_i h
    obtain ⟨r, rfl⟩ := h
    rw [List.drop_left]
    constructor
    · intro hs
      exact .inr ⟨r, rfl, hs⟩
    · rintro (⟨hnot, -⟩ | ⟨r', heq, hs⟩)
      · exact absurd (List.prefix_append p r) hnot
      · rwa [List.append_cancel_left heq]
  · rename_i h
    constructor
    · intro ht
      exact .inl ⟨h, ht⟩
    · rintro (⟨-, ht⟩ | ⟨r, rfl, -⟩)
      · exact ht
      · exact absurd (List.prefix_append p r) h

/-- **Putting a subtree in** at a free path with what stands above it there keeps the tree closed. -/
theorem Closed.attach (ht : Closed t) (hs : Closed s) (habove : ∀ q, Above q p → t q ≠ none) : Closed (attach t p s) := by
  intro q r hne
  rw [PathTree.attach] at hne ⊢
  by_cases hq : p <+: q
  · obtain ⟨q, rfl⟩ := hq
    rw [List.append_assoc, if_pos (List.prefix_append _ _), List.drop_left] at hne
    rw [if_pos (List.prefix_append _ _), List.drop_left]
    exact hs _ _ hne
  · rw [if_neg hq]
    split at hne
    · rename_i hpr
      rcases List.prefix_or_prefix_of_prefix hpr (List.prefix_append q r) with h | h
      · exact absurd h hq
      · refine habove q ⟨h, ?_⟩
        rintro rfl
        exact hq (List.prefix_refl _)
    · exact ht q r hne

end PathTree
