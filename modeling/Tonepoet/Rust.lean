import Mathlib.Algebra.Order.Ring.Nat
import Mathlib.Data.List.Basic

/-!
# The Rust side of the models

A modelled function that can fail returns `Outcome E α`: the source's `Err(e)` is `Fault.err e`, an
out-of-range index or a failed `assert!` is `Fault.panic`. Sizes are natural numbers, checked against
`usizeMax` where the source uses a `checked_` operation.
-/

namespace Rust

/-- How a call ends that does not return a value. -/
inductive Fault (E : Type) where
  | err (e : E)
  | panic
  /-- A loop of the source that would not end. -/
  | stuck
  deriving DecidableEq, Repr

abbrev Outcome (E α : Type) := Except (Fault E) α

def usizeMax : ℕ := 2 ^ 64 - 1

def checkedAdd (a b : ℕ) : Option ℕ := if a + b ≤ usizeMax then some (a + b) else none
def checkedMul (a b : ℕ) : Option ℕ := if a * b ≤ usizeMax then some (a * b) else none
def checkedSub (a b : ℕ) : Option ℕ := if b ≤ a then some (a - b) else none

variable {E α : Type} {m : Type → Type} [Monad m] [MonadExcept (Fault E) m]

/-- `return Err(e)`. -/
def fail (e : E) : m α := throw (.err e)

/-- `ok_or(e)?`. -/
def okOr (e : E) : Option α → m α
  | some a => pure a
  | none => fail e

/-- `xs[i]`. -/
def index (xs : List α) (i : ℕ) : m α :=
  match xs[i]? with
  | some a => pure a
  | none => throw .panic

/-- `xs[i] = a`. -/
def assign (xs : List α) (i : ℕ) (a : α) : m (List α) :=
  if i < xs.length then pure (xs.set i a) else throw .panic

/-- `xss[i][j]`. -/
def index2 (xss : List (List α)) (i j : ℕ) : m α := do index (← index xss i) j

/-- `xss[i][j] = a`. -/
def assign2 (xss : List (List α)) (i j : ℕ) (a : α) : m (List (List α)) := do
  assign xss i (← assign (← index xss i) j a)

/-- `xs.get(lo..hi)`. -/
def slice (xs : List α) (lo hi : ℕ) : Option (List α) :=
  if lo ≤ hi ∧ hi ≤ xs.length then some ((xs.drop lo).take (hi - lo)) else none

/-- `for i in lo..hi` over a state. -/
def forRange {σ : Type} (lo hi : ℕ) (s : σ) (f : σ → ℕ → m σ) : m σ :=
  (List.range' lo (hi - lo)).foldlM f s

theorem checkedAdd_of_le {a b : ℕ} (h : a + b ≤ usizeMax) : checkedAdd a b = some (a + b) := by simp [checkedAdd, h]

theorem checkedMul_of_le {a b : ℕ} (h : a * b ≤ usizeMax) : checkedMul a b = some (a * b) := by simp [checkedMul, h]

theorem checkedSub_of_le {a b : ℕ} (h : b ≤ a) : checkedSub a b = some (a - b) := by simp [checkedSub, h]

theorem slice_of_le {xs : List α} {lo hi : ℕ} (h : lo ≤ hi) (hlen : hi ≤ xs.length) :
    slice xs lo hi = some ((xs.drop lo).take (hi - lo)) := if_pos ⟨h, hlen⟩

theorem some_bind {α β : Type} (a : α) (f : α → Option β) : (some a >>= f) = f a := rfl

@[simp] theorem ok_bind {β : Type} (a : α) (f : α → Outcome E β) : (Except.ok a >>= f) = f a := rfl

/-- What a computation that succeeds has gone through. -/
theorem bind_eq_ok {ε α β : Type} {x : Except ε α} {f : α → Except ε β} {b : β} :
    (x >>= f) = .ok b ↔ ∃ a, x = .ok a ∧ f a = .ok b := by
  cases x with
  | error e => exact ⟨nofun, fun ⟨_, h, _⟩ => nomatch h⟩
  | ok a =>
    constructor
    · intro h
      exact ⟨a, rfl, h⟩
    · rintro ⟨_, ⟨⟩, h⟩
      exact h

theorem map_eq_ok {ε α β : Type} {x : Except ε α} {f : α → β} {b : β} : x.map f = .ok b ↔ ∃ a, x = .ok a ∧ f a = b := by
  cases x with
  | error e => exact ⟨nofun, fun ⟨_, h, _⟩ => nomatch h⟩
  | ok a =>
    constructor
    · rintro ⟨⟩
      exact ⟨a, rfl, rfl⟩
    · rintro ⟨_, ⟨⟩, rfl⟩
      rfl

theorem error_if_eq_ok {ε α : Type} {p : Prop} [Decidable p] {error : ε} {x : Except ε α} {r : α} :
    (if p then .error error else x) = .ok r ↔ ¬ p ∧ x = .ok r := by
  split <;> rename_i h
  · exact ⟨nofun, fun hr => absurd h hr.1⟩
  · exact ⟨fun hr => ⟨h, hr⟩, fun hr => hr.2⟩

/-- A loop whose steps all succeed. -/
theorem mapM_ok {ε α β : Type} {f : α → Except ε β} {g : α → β} : ∀ {xs : List α}, (∀ a ∈ xs, f a = .ok (g a)) →
    xs.mapM f = .ok (xs.map g)
  | [], _ => rfl
  | a :: xs, h => by
    rw [List.mapM_cons, h a (by simp), mapM_ok fun b hb => h b (by simp [hb])]
    rfl

@[simp] theorem okOr_some (e : E) (a : α) : (okOr e (some a) : m α) = pure a := rfl

theorem getElem?_getD {xs : List α} {i : ℕ} (d : α) (h : i < xs.length) : xs[i]? = some (xs.getD i d) := by
  rw [List.getD_eq_getElem?_getD, List.getElem?_eq_getElem h, Option.getD_some]

theorem index_of_getElem? {xs : List α} {i : ℕ} {a : α} (h : xs[i]? = some a) : (index xs i : m α) = pure a := by
  simp [index, h]

theorem assign_of_lt {xs : List α} {i : ℕ} {a : α} (h : i < xs.length) :
    (assign xs i a : m (List α)) = pure (xs.set i a) := by simp [assign, h]

/-! ## Two-dimensional arrays -/

def at2 (xss : List (List α)) (i j : ℕ) : Option α := xss[i]?.bind fun row => row[j]?

/-- An `[[T; n]; m]`. -/
structure Rect (m n : ℕ) (xss : List (List α)) : Prop where
  length : xss.length = m
  row : ∀ r ∈ xss, r.length = n

theorem rect_replicate (m n : ℕ) (a : α) : Rect m n (List.replicate m (List.replicate n a)) := by
  refine ⟨List.length_replicate, fun r hr => ?_⟩
  rw [(List.mem_replicate.1 hr).2, List.length_replicate]

theorem at2_replicate {m n i j : ℕ} (a : α) (hi : i < m) (hj : j < n) :
    at2 (List.replicate m (List.replicate n a)) i j = some a := by
  simp [at2, hi, hj]

theorem index2_of_at2 [LawfulMonad m] {xss : List (List α)} {i j : ℕ} {a : α} (h : at2 xss i j = some a) :
    (index2 xss i j : m α) = pure a := by
  obtain ⟨row, hrow, ha⟩ := Option.bind_eq_some_iff.1 h
  rw [index2, index_of_getElem? hrow, pure_bind, index_of_getElem? ha]

/-- What one assignment does to an array, in any of the monads it runs in. -/
theorem assign2_spec {k l : ℕ} {xss : List (List α)} (h : Rect k l xss) {i j : ℕ} (hi : i < k) (hj : j < l) (a : α) :
    ∃ yss, (∀ {m : Type → Type} [Monad m] [MonadExcept (Fault E) m] [LawfulMonad m], (assign2 xss i j a : m _) = pure yss) ∧
      Rect k l yss ∧ ∀ i' j', at2 yss i' j' = if i' = i ∧ j' = j then some a else at2 xss i' j' := by
  have hi' : i < xss.length := by rw [h.length]; exact hi
  have hrow : xss[i]? = some xss[i] := List.getElem?_eq_getElem hi'
  have hlen : xss[i].length = l := h.row _ (List.getElem_mem hi')
  refine ⟨xss.set i (xss[i].set j a), ?_, ⟨by simpa using h.length, ?_⟩, ?_⟩
  · intro m _ _ _
    rw [assign2, index_of_getElem? hrow, pure_bind, assign_of_lt (by rw [hlen]; exact hj), pure_bind, assign_of_lt hi']
  · intro r hr
    rcases List.mem_or_eq_of_mem_set hr with hr | rfl
    · exact h.row r hr
    · simpa using hlen
  · intro i' j'
    by_cases hii : i' = i
    · subst hii
      by_cases hjj : j' = j
      · subst hjj
        simp [at2, hi', hlen, hj]
      · simp only [at2, List.getElem?_set_self hi', hjj, and_false, if_false, Option.bind_some, hrow]
        exact List.getElem?_set_ne (Ne.symm hjj)
    · simp only [at2, hii, false_and, if_false, List.getElem?_set_ne (Ne.symm hii)]

/-! ## Loops -/

theorem forRange_self {σ : Type} (k : ℕ) (s : σ) (f : σ → ℕ → m σ) : forRange k k s f = pure s := by simp [forRange]

theorem forRange_one [LawfulMonad m] {σ : Type} (s : σ) (f : σ → ℕ → m σ) : forRange 0 1 s f = f s 0 := by
  simp [forRange]

/-- The index pairs of two nested loops, in loop order. -/
def grid (n k : ℕ) : List (ℕ × ℕ) := (List.range n).flatMap fun i => (List.range k).map fun j => (i, j)

theorem mem_grid {n k : ℕ} {p : ℕ × ℕ} : p ∈ grid n k ↔ p.1 < n ∧ p.2 < k := by
  obtain ⟨i, j⟩ := p
  simp [grid]

theorem length_grid (n k : ℕ) : (grid n k).length = n * k := by simp [grid, List.length_flatMap]

theorem foldlM_flatMap [LawfulMonad m] {σ β γ : Type} (f : σ → γ → m σ) (g : β → List γ) :
    ∀ (xs : List β) (s : σ), (xs.flatMap g).foldlM f s = xs.foldlM (fun s x => (g x).foldlM f s) s
  | [], s => rfl
  | x :: xs, s => by
    rw [List.flatMap_cons, List.foldlM_append, List.foldlM_cons]
    exact bind_congr fun t => foldlM_flatMap f g xs t

/-- Two nested counting loops are one loop over the grid. -/
theorem forRange_grid [LawfulMonad m] {σ : Type} {n k : ℕ} {f : ℕ → σ → ℕ → m σ} {g : σ → ℕ → m σ}
    (h : ∀ i < n, ∀ s, g s i = forRange 0 k s (f i)) (s : σ) :
    forRange 0 n s g = (grid n k).foldlM (fun s p => f p.1 s p.2) s := by
  have hrow : ∀ i s, ((List.range k).map fun j => (i, j)).foldlM (fun s p => f p.1 s p.2) s = forRange 0 k s (f i) := by
    intro i s
    rw [List.foldlM_map, forRange, Nat.sub_zero, List.range_eq_range']
  have hcongr : ∀ (xs : List ℕ), (∀ i ∈ xs, i < n) → ∀ s,
      xs.foldlM g s = xs.foldlM (fun s i => ((List.range k).map fun j => (i, j)).foldlM (fun s p => f p.1 s p.2) s) s := by
    intro xs
    induction xs with
    | nil => intro _ s; rfl
    | cons i xs ih =>
      intro hxs s
      rw [List.foldlM_cons, List.foldlM_cons, hrow, h i (hxs i (by simp))]
      exact bind_congr fun t => ih (fun j hj => hxs j (by simp [hj])) t
  rw [forRange, Nat.sub_zero, ← List.range_eq_range', hcongr _ (fun i hi => List.mem_range.1 hi), grid, foldlM_flatMap]

/-- A loop with an invariant: if every step from an invariant state succeeds and keeps it, so does the loop. -/
theorem foldlM_inv {σ β : Type} (I : ℕ → σ → Prop) (f : σ → β → Outcome E σ) :
    ∀ (xs : List β) (k : ℕ) (s : σ), I k s →
      (∀ i (hi : i < xs.length) t, I (k + i) t → ∃ t', f t xs[i] = .ok t' ∧ I (k + i + 1) t') →
      ∃ s', xs.foldlM f s = .ok s' ∧ I (k + xs.length) s'
  | [], k, s, hs, _ => ⟨s, rfl, hs⟩
  | x :: xs, k, s, hs, hstep => by
    obtain ⟨t, ht, hI⟩ := hstep 0 (by simp) s hs
    have hrest : ∀ i (hi : i < xs.length) u, I (k + 1 + i) u → ∃ u', f u xs[i] = .ok u' ∧ I (k + 1 + i + 1) u' := by
      intro i hi u hu
      have := hstep (i + 1) (by simpa using hi) u (by rwa [show k + (i + 1) = k + 1 + i by omega])
      rwa [show k + (i + 1) + 1 = k + 1 + i + 1 by omega] at this
    obtain ⟨s', hs', hI'⟩ := foldlM_inv I f xs (k + 1) t hI hrest
    refine ⟨s', ?_, by rwa [List.length_cons, show k + (xs.length + 1) = k + 1 + xs.length by omega]⟩
    rw [List.foldlM_cons]
    exact (congrArg (fun o => o >>= fun u => xs.foldlM f u) ht).trans hs'

/-- `foldlM_inv` for a counting loop. -/
theorem forRange_inv {σ : Type} (I : ℕ → σ → Prop) {f : σ → ℕ → Outcome E σ} {lo hi : ℕ} (hle : lo ≤ hi)
    (hstep : ∀ i, lo ≤ i → i < hi → ∀ t, I i t → ∃ t', f t i = .ok t' ∧ I (i + 1) t') {s : σ} (hs : I lo s) :
    ∃ s', forRange lo hi s f = .ok s' ∧ I hi s' := by
  obtain ⟨s', h, hI⟩ := foldlM_inv I f (List.range' lo (hi - lo)) lo s hs (by
    intro i hi' t ht
    rw [List.length_range'] at hi'
    rw [List.getElem_range', Nat.one_mul]
    exact hstep _ (by omega) (by omega) t ht)
  rw [List.length_range', Nat.add_sub_cancel' hle] at hI
  exact ⟨s', h, hI⟩

end Rust
