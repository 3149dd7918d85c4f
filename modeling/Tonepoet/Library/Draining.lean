import Mathlib.Data.List.Basic

/-!
# Draining a buffer that is fed in pieces

A reader looks at the front of a buffer and takes items from it, until it has to wait for more; what it keeps is put before the next piece.
What comes out does not depend on the pieces, where the reader's turns do not change when more is behind them.
-/

namespace Draining

/-- A turn of a reader: it goes on behind some elements, or drops some and waits. -/
inductive Turn (ε : Type) where
  | take (n : ℕ) (items : List ε)
  | wait (n : ℕ)

variable {α ε : Type} {next : List α → Turn ε}

/-- The items of a buffer, and what is kept. -/
inductive Drains (next : List α → Turn ε) : List α → List ε → List α → Prop where
  | wait {b : List α} {n : ℕ} (h : next b = .wait n) : Drains next b [] (b.drop n)
  | take {b b' : List α} {n : ℕ} {items more : List ε} (h : next b = .take n items) (hmore : Drains next (b.drop n) more b') :
      Drains next b (items ++ more) b'

/-- The turns of a reader do not change when more comes. -/
structure Steady (next : List α → Turn ε) (Quiet : List α → Prop) : Prop where
  take : ∀ {b n items}, next b = .take n items → n ≤ b.length ∧ ∀ r, next (b ++ r) = .take n items
  wait : ∀ {b n}, next b = .wait n → Quiet (b.drop n) →
    next (b.drop n) = .wait 0 ∧ ∀ r items b', Drains next (b.drop n ++ r) items b' → Drains next (b ++ r) items b'

theorem Drains.unique {b b₁ b₂ : List α} {items₁ items₂ : List ε} (h₁ : Drains next b items₁ b₁) (h₂ : Drains next b items₂ b₂) :
    items₁ = items₂ ∧ b₁ = b₂ := by
  induction h₁ generalizing items₂ b₂ with
  | wait h =>
    cases h₂ with
    | wait h' =>
      rw [h] at h'
      cases h'
      exact ⟨rfl, rfl⟩
    | take h' _ =>
      rw [h] at h'
      cases h'
  | take h _ ih =>
    cases h₂ with
    | wait h' =>
      rw [h] at h'
      cases h'
    | take h' hmore' =>
      rw [h] at h'
      cases h'
      obtain ⟨rfl, rfl⟩ := ih hmore'
      exact ⟨rfl, rfl⟩

variable {Quiet : List α → Prop}

/-- What is kept waits. -/
theorem Drains.again (hsteady : Steady next Quiet) {b b' : List α} {items : List ε} (h : Drains next b items b') (hquiet : Quiet b') :
    Drains next b' [] b' := by
  induction h with
  | wait h => exact Drains.wait (hsteady.wait h hquiet).1
  | take _ _ ih => exact ih hquiet

/-- **More behind a buffer**: its items come first, and the reader goes on with what it kept. -/
theorem Drains.append (hsteady : Steady next Quiet) {b b' b'' r : List α} {items more : List ε} (h : Drains next b items b') (hquiet : Quiet b')
    (hmore : Drains next (b' ++ r) more b'') : Drains next (b ++ r) (items ++ more) b'' := by
  induction h with
  | wait h => exact (hsteady.wait h hquiet).2 r more b'' hmore
  | take h _ ih =>
    obtain ⟨hle, happend⟩ := hsteady.take h
    rw [List.append_assoc]
    refine .take (happend r) ?_
    rw [List.drop_append_of_le_length hle]
    exact ih hquiet hmore

end Draining
