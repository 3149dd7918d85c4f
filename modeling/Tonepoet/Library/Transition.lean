import Mathlib.Algebra.BigOperators.Group.List.Basic
import Mathlib.Algebra.Order.Ring.Nat
import Mathlib.Data.List.Induction
import Mathlib.Data.List.Perm.Basic

/-!
# Runs of a transition system

A run is a list of labelled steps. What one step preserves, a whole run preserves. A system is often a
list of components one of which moves at a time; a sum or a collection over the components then changes
by what the moving one contributes.
-/

namespace Transition

section Run

variable {σ ε : Type*} {step : σ → ε → σ → Prop}

/-- A run from a state, with its labels in order. -/
inductive Run (step : σ → ε → σ → Prop) (s : σ) : List ε → σ → Prop where
  | nil : Run step s [] s
  | snoc {es : List ε} {t u : σ} {e : ε} : Run step s es t → step t e u → Run step s (es ++ [e]) u

/-- What every step keeps holds at the end of every run. -/
theorem Run.invariant {s t : σ} {es : List ε} (h : Run step s es t) (I : List ε → σ → Prop) (hinit : I [] s)
    (hstep : ∀ es t e u, I es t → step t e u → I (es ++ [e]) u) : I es t := by
  induction h with
  | nil => exact hinit
  | snoc _ he ih => exact hstep _ _ _ _ ih he

theorem Run.single {s t : σ} {e : ε} (h : step s e t) : Run step s [e] t := Run.snoc Run.nil h

theorem Run.append {s t u : σ} {es fs : List ε} (h : Run step s es t) (h' : Run step t fs u) : Run step s (es ++ fs) u := by
  induction h' with
  | nil => rwa [List.append_nil]
  | snoc _ he ih =>
    rw [← List.append_assoc]
    exact ih.snoc he

/-- The last step of a run. -/
theorem Run.last {s u : σ} {es : List ε} {e : ε} (h : Run step s (es ++ [e]) u) : ∃ t, Run step s es t ∧ step t e u := by
  generalize hfs : es ++ [e] = fs at h
  cases h with
  | nil => simp at hfs
  | snoc hrun he =>
    obtain ⟨rfl, heq⟩ := List.append_inj' hfs rfl
    cases heq
    exact ⟨_, hrun, he⟩

/-- A run is cut where its labels are. -/
theorem Run.split {s u : σ} {es : List ε} : ∀ {fs : List ε}, Run step s (es ++ fs) u → ∃ t, Run step s es t ∧ Run step t fs u := by
  intro fs
  induction fs using List.reverseRecOn generalizing u with
  | nil =>
    intro h
    exact ⟨u, by simpa using h, .nil⟩
  | append_singleton fs e ih =>
    intro h
    rw [← List.append_assoc] at h
    obtain ⟨v, hv, he⟩ := h.last
    obtain ⟨t, ht, hrest⟩ := ih hv
    exact ⟨t, ht, hrest.snoc he⟩

/-- A run of a system is a run of every system with more steps. -/
theorem Run.mono {step' : σ → ε → σ → Prop} (hle : ∀ t e u, step t e u → step' t e u) {s t : σ} {es : List ε}
    (h : Run step s es t) : Run step' s es t := by
  induction h with
  | nil => exact .nil
  | snoc _ he ih => exact ih.snoc (hle _ _ _ he)

end Run

section Components

variable {α β : Type*}

/-- A sum over the components after one of them has moved. -/
theorem sum_map_set (f : α → ℕ) : ∀ {xs : List α} {i : ℕ} {a : α} (b : α), xs[i]? = some a →
    ((xs.set i b).map f).sum + f a = (xs.map f).sum + f b
  | [], _, _, _, h => by simp at h
  | x :: xs, 0, a, b, h => by
    obtain rfl : x = a := by simpa using h
    rw [List.set_cons_zero, List.map_cons, List.map_cons, List.sum_cons, List.sum_cons]
    omega
  | x :: xs, i + 1, a, b, h => by
    have ih := sum_map_set f b (show xs[i]? = some a by simpa using h)
    rw [List.set_cons_succ, List.map_cons, List.map_cons, List.sum_cons, List.sum_cons]
    omega

theorem sum_map_concat (f : α → ℕ) (xs : List α) (a : α) : ((xs ++ [a]).map f).sum = (xs.map f).sum + f a := by
  rw [List.map_append, List.sum_append, List.map_singleton, List.sum_singleton]

theorem le_sum_map {f : α → ℕ} : ∀ {xs : List α} {i : ℕ} {a : α}, xs[i]? = some a → f a ≤ (xs.map f).sum
  | [], _, _, h => by simp at h
  | x :: xs, 0, a, h => by
    obtain rfl : x = a := by simpa using h
    rw [List.map_cons, List.sum_cons]
    omega
  | x :: xs, i + 1, a, h => by
    have ih := le_sum_map (f := f) (show xs[i]? = some a by simpa using h)
    rw [List.map_cons, List.sum_cons]
    omega

/-- What the components hold together after one of them has moved. -/
theorem flatMap_set_perm (f : α → List β) : ∀ {xs : List α} {i : ℕ} {a : α} (b : α), xs[i]? = some a →
    ((xs.set i b).flatMap f ++ f a).Perm (xs.flatMap f ++ f b)
  | [], _, _, _, h => by simp at h
  | x :: xs, 0, a, b, h => by
    obtain rfl : x = a := by simpa using h
    rw [List.set_cons_zero, List.flatMap_cons, List.flatMap_cons]
    refine List.perm_append_comm.trans ?_
    rw [List.append_assoc]
    exact List.perm_append_comm.append_left _
  | x :: xs, i + 1, a, b, h => by
    have ih := flatMap_set_perm f b (show xs[i]? = some a by simpa using h)
    rw [List.set_cons_succ, List.flatMap_cons, List.flatMap_cons, List.append_assoc, List.append_assoc]
    exact ih.append_left _

theorem flatMap_concat (f : α → List β) (xs : List α) (a : α) : (xs ++ [a]).flatMap f = xs.flatMap f ++ f a := by
  rw [List.flatMap_append, List.flatMap_singleton]

end Components

end Transition
