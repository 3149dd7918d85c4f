import Mathlib.Data.Set.Lattice

/-!
# Regions of a path tree

A claim on a path is on that path alone or on everything below it. Two claims overlap when their regions
meet, and that is decided from the two paths: the paths below which a path lies are a chain.
-/

namespace PathRegion

variable {α : Type*}

inductive Scope where
  | exact
  | subtree
  deriving DecidableEq, Repr

/-- A claim on `outer` reaches `inner`. -/
def Covers (s : Scope) (outer inner : List α) : Prop := outer = inner ∨ s = .subtree ∧ outer <+: inner

/-- The two claims reach a common path. -/
def Overlap (s : Scope) (p : List α) (t : Scope) (q : List α) : Prop := Covers s p q ∨ Covers t q p

instance [DecidableEq α] (s : Scope) (outer inner : List α) : Decidable (Covers s outer inner) :=
  inferInstanceAs (Decidable (_ ∨ _))

instance [DecidableEq α] (s t : Scope) (p q : List α) : Decidable (Overlap s p t q) :=
  inferInstanceAs (Decidable (_ ∨ _))

/-- The paths a claim reaches. -/
def region (s : Scope) (p : List α) : Set (List α) := {q | Covers s p q}

variable {s t : Scope} {p q x : List α}

theorem covers_self (s : Scope) (p : List α) : Covers s p p := .inl rfl

theorem Covers.isPrefix (h : Covers s p q) : p <+: q := by
  rcases h with rfl | ⟨-, h⟩
  · exact List.prefix_refl _
  · exact h

theorem covers_exact : Covers .exact p q ↔ p = q := by
  constructor
  · rintro (h | ⟨h, -⟩)
    · exact h
    · cases h
  · exact .inl

theorem covers_subtree : Covers .subtree p q ↔ p <+: q := ⟨Covers.isPrefix, fun h => .inr ⟨rfl, h⟩⟩

theorem Covers.trans (h : Covers s p q) (h' : Covers s q x) : Covers s p x := by
  cases s
  · rw [covers_exact] at *
    exact h.trans h'
  · rw [covers_subtree] at *
    exact h.trans h'

/-- **Claims overlap when their regions meet.** -/
theorem overlap_iff_nonempty : Overlap s p t q ↔ (region s p ∩ region t q).Nonempty := by
  constructor
  · rintro (h | h)
    · exact ⟨q, h, covers_self t q⟩
    · exact ⟨p, covers_self s p, h⟩
  · rintro ⟨x, hp, hq⟩
    rcases hp with rfl | ⟨rfl, hp⟩
    · exact .inr hq
    · rcases hq with rfl | ⟨rfl, hq⟩
      · exact .inl (.inr ⟨rfl, hp⟩)
      · rcases List.prefix_or_prefix_of_prefix hp hq with h | h
        · exact .inl (.inr ⟨rfl, h⟩)
        · exact .inr (.inr ⟨rfl, h⟩)

theorem Overlap.symm (h : Overlap s p t q) : Overlap t q s p := Or.symm h

/-- A claim with a larger region overlaps with more. -/
theorem Overlap.mono {s' : Scope} {p' : List α} (h : Overlap t q s p) (hsub : region s p ⊆ region s' p') :
    Overlap t q s' p' :=
  overlap_iff_nonempty.2 ((overlap_iff_nonempty.1 h).mono (Set.inter_subset_inter_right _ hsub))

/-- The region of a path a claim reaches is inside the claim's, where it is not wider in kind. -/
theorem region_subset (h : Covers s p q) (hscope : t = .subtree → s = .subtree) : region t q ⊆ region s p := by
  intro x hx
  rcases hx with rfl | ⟨ht, hx⟩
  · exact h
  · exact .inr ⟨hscope ht, h.isPrefix.trans hx⟩

/-- A one-component path outside every component of `p` is reached by a claim on `p` only if the claim reaches
    everything. -/
theorem not_covers_fresh {a : α} (ha : a ∉ p) (huniversal : ¬ (s = .subtree ∧ p = [])) : ¬ Covers s p [a] := by
  intro h
  cases p with
  | nil =>
    rcases h with h | ⟨rfl, -⟩
    · cases h
    · exact huniversal ⟨rfl, rfl⟩
  | cons b p =>
    obtain ⟨rfl, -⟩ := List.cons_prefix_cons.1 h.isPrefix
    exact ha List.mem_cons_self

end PathRegion
