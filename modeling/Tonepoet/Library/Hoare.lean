import Mathlib.Data.List.Basic

/-!
# Postconditions of fallible computations

`Returns E Q x` says of a computation that its value satisfies `Q` if it has one and that its error
satisfies `E` if it fails: `E` is nothing for a computation that must succeed, everything for partial
correctness, and the expected errors where the others are faults. `Meets E Q p s` is the same for a
computation with a state, started in `s`. The rules follow the shape of the program.
-/

namespace Hoare

variable {ε σ α β τ : Type} {E E' : ε → Prop}

/-- The value satisfies `Q`, the error satisfies `E`. -/
def Returns (E : ε → Prop) (Q : α → Prop) : Except ε α → Prop
  | .ok a => Q a
  | .error e => E e

/-- `Returns` for a computation started in the state `s`. -/
def Meets (E : ε → Prop) (Q : α → σ → Prop) (p : StateT σ (Except ε) α) (s : σ) : Prop :=
  Returns E (fun r => Q r.1 r.2) (p s)

namespace Returns

theorem of_ok {Q : α → Prop} {x : Except ε α} {a : α} (h : Returns E Q x) (hx : x = .ok a) : Q a := by
  subst hx
  exact h

theorem of_error {Q : α → Prop} {x : Except ε α} {e : ε} (h : Returns E Q x) (hx : x = .error e) : E e := by
  subst hx
  exact h

theorem pure {Q : α → Prop} {a : α} (h : Q a) : Returns E Q (pure a) := h

theorem throw {Q : α → Prop} {e : ε} (h : E e) : Returns E Q (throw e) := h

theorem mono {Q Q' : α → Prop} {x : Except ε α} (h : Returns E Q x) (hQ : ∀ a, Q a → Q' a) : Returns E Q' x := by
  cases x with
  | ok a => exact hQ a h
  | error e => exact h

/-- The sequence rule. -/
theorem bind {Q : α → Prop} {R : β → Prop} {x : Except ε α} {f : α → Except ε β} (h : Returns E Q x)
    (hf : ∀ a, Q a → Returns E R (f a)) : Returns E R (x >>= f) := by
  cases x with
  | ok a => exact hf a h
  | error e => exact h

theorem ite {Q : α → Prop} {c : Prop} [Decidable c] {x y : Except ε α} (hx : c → Returns E Q x)
    (hy : ¬ c → Returns E Q y) : Returns E Q (if c then x else y) := by
  split
  · exact hx ‹_›
  · exact hy ‹_›

/-- The loop rule: the invariant is indexed by the number of steps taken. -/
theorem foldlM (I : ℕ → τ → Prop) (f : τ → β → Except ε τ) : ∀ (xs : List β) (k : ℕ) (t : τ), I k t →
    (∀ i (hi : i < xs.length) u, I (k + i) u → Returns E (I (k + i + 1)) (f u xs[i])) →
    Returns E (I (k + xs.length)) (xs.foldlM f t)
  | [], _, _, ht, _ => ht
  | x :: xs, k, t, ht, hstep => by
    rw [List.foldlM_cons, List.length_cons, ← Nat.add_assoc, Nat.add_right_comm]
    refine (hstep 0 (by simp) t ht).bind fun u hu => foldlM I f xs (k + 1) u hu fun i hi v hv => ?_
    have h := hstep (i + 1) (by simpa using hi) v (by rwa [← Nat.add_assoc, Nat.add_right_comm k i 1])
    rwa [← Nat.add_assoc, Nat.add_right_comm k i 1] at h

end Returns

namespace Meets

theorem of_ok {Q : α → σ → Prop} {p : StateT σ (Except ε) α} {s t : σ} {a : α} (h : Meets E Q p s)
    (hp : p s = .ok (a, t)) : Q a t := Returns.of_ok (Q := fun r : α × σ => Q r.1 r.2) h hp

theorem pure {Q : α → σ → Prop} {a : α} {s : σ} (h : Q a s) : Meets E Q (pure a) s := h

/-- The weakest postcondition of all. -/
theorem any (p : StateT σ (Except ε) α) (s : σ) : Meets (fun _ => True) (fun _ _ => True) p s := by
  unfold Meets Returns
  split <;> trivial

theorem throw {Q : α → σ → Prop} {e : ε} {s : σ} (h : E e) :
    Meets E Q (throw e : StateT σ (Except ε) α) s := h

theorem mono {Q Q' : α → σ → Prop} {p : StateT σ (Except ε) α} {s : σ} (h : Meets E Q p s)
    (hQ : ∀ a t, Q a t → Q' a t) : Meets E Q' p s := Returns.mono (Q := fun r : α × σ => Q r.1 r.2) h fun r => hQ r.1 r.2

/-- The sequence rule. -/
theorem bind {Q : α → σ → Prop} {R : β → σ → Prop} {p : StateT σ (Except ε) α} {f : α → StateT σ (Except ε) β} {s : σ}
    (h : Meets E Q p s) (hf : ∀ a t, Q a t → Meets E R (f a) t) : Meets E R (p >>= f) s :=
  Returns.bind (Q := fun r : α × σ => Q r.1 r.2) h fun r hr => hf r.1 r.2 hr

theorem ite {Q : α → σ → Prop} {c : Prop} [Decidable c] {p q : StateT σ (Except ε) α} {s : σ}
    (hp : c → Meets E Q p s) (hq : ¬ c → Meets E Q q s) : Meets E Q (if c then p else q) s := by
  split
  · exact hp ‹_›
  · exact hq ‹_›

/-- A computation without a state keeps the state. -/
theorem lift {Q : α → Prop} {x : Except ε α} {s : σ} (h : Returns E Q x) :
    Meets E (fun a t => Q a ∧ t = s) (liftM x : StateT σ (Except ε) α) s := by
  cases x with
  | ok a => exact ⟨h, rfl⟩
  | error e => exact h

/-- Two postconditions together; the errors are those of the first. -/
theorem and {Q R : α → σ → Prop} {p : StateT σ (Except ε) α} {s : σ} (h : Meets E Q p s) (h' : Meets E' R p s) :
    Meets E (fun a t => Q a t ∧ R a t) p s := by
  unfold Meets at h h' ⊢
  cases hp : p s with
  | ok r => exact ⟨h.of_ok hp, h'.of_ok hp⟩
  | error e => exact h.of_error hp

theorem get_bind {Q : α → σ → Prop} {f : σ → StateT σ (Except ε) α} {s : σ} (h : Meets E Q (f s) s) :
    Meets E Q (get >>= f) s := h

theorem set {Q : PUnit → σ → Prop} {s t : σ} (h : Q ⟨⟩ t) : Meets E Q (set t) s := h

/-- The loop rule. -/
theorem foldlM (I : ℕ → τ → σ → Prop) (f : τ → β → StateT σ (Except ε) τ) : ∀ (xs : List β) (k : ℕ) (t : τ) (s : σ),
    I k t s → (∀ i (hi : i < xs.length) u v, I (k + i) u v → Meets E (I (k + i + 1)) (f u xs[i]) v) →
    Meets E (I (k + xs.length)) (xs.foldlM f t) s
  | [], _, _, _, ht, _ => ht
  | x :: xs, k, t, s, ht, hstep => by
    rw [List.foldlM_cons, List.length_cons, ← Nat.add_assoc, Nat.add_right_comm]
    refine (hstep 0 (by simp) t s ht).bind fun u v hu => foldlM I f xs (k + 1) u v hu fun i hi w z hw => ?_
    have h := hstep (i + 1) (by simpa using hi) w z (by rwa [← Nat.add_assoc, Nat.add_right_comm k i 1])
    rwa [← Nat.add_assoc, Nat.add_right_comm k i 1] at h

end Meets
end Hoare
