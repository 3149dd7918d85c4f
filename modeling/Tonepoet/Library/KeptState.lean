import Mathlib.Order.Defs.Unbundled

/-!
# Computations that keep their state when they fail

`Leaves E Q p s` says of a computation started in the state `s` what it leaves behind: a value and a state with `Q`, or an error and a
state with `E`. The rules follow the shape of the program.
-/

namespace KeptState

variable {ε σ α β : Type}

/-- What a computation leaves behind. -/
def Leaves (E : ε → σ → Prop) (Q : α → σ → Prop) (p : EStateM ε σ α) (s : σ) : Prop :=
  match p s with
  | .ok a t => Q a t
  | .error e t => E e t

namespace Leaves

variable {E E' : ε → σ → Prop} {Q Q' : α → σ → Prop} {R : β → σ → Prop} {p q : EStateM ε σ α} {s t : σ} {a : α} {e : ε}

theorem of_ok (h : Leaves E Q p s) (hp : p s = .ok a t) : Q a t := by
  unfold Leaves at h
  rw [hp] at h
  exact h

theorem of_error (h : Leaves E Q p s) (hp : p s = .error e t) : E e t := by
  unfold Leaves at h
  rw [hp] at h
  exact h

theorem pure (h : Q a s) : Leaves E Q (pure a) s := h

theorem throw (h : E e s) : Leaves E Q (throw e) s := h

theorem mono (h : Leaves E Q p s) (hE : ∀ e t, E e t → E' e t) (hQ : ∀ a t, Q a t → Q' a t) : Leaves E' Q' p s := by
  unfold Leaves at h ⊢
  split at h
  · exact hQ _ _ h
  · exact hE _ _ h

/-- The sequence rule. -/
theorem bind {f : α → EStateM ε σ β} (h : Leaves E Q p s) (hf : ∀ a t, Q a t → Leaves E R (f a) t) : Leaves E R (p >>= f) s := by
  have hrun : (p >>= f) s = match p s with
      | .ok a t => f a t
      | .error e t => .error e t := rfl
  unfold Leaves at h ⊢
  rw [hrun]
  cases hp : p s with
  | ok a t =>
    rw [hp] at h
    exact hf a t h
  | error e t =>
    rw [hp] at h
    exact h

/-- The rule for an error that is caught: the handler starts where the error left the state. -/
theorem tryCatch {handle : ε → EStateM ε σ α} (h : Leaves E Q p s) (hhandle : ∀ e t, E e t → Leaves E' Q (handle e) t) :
    Leaves E' Q (tryCatch p handle) s := by
  have hrun : (MonadExcept.tryCatch p handle) s = match p s with
      | .ok a t => .ok a t
      | .error e t => handle e t := by
    change EStateM.tryCatch p handle s = _
    unfold EStateM.tryCatch
    cases p s <;> rfl
  unfold Leaves at h ⊢
  rw [hrun]
  cases hp : p s with
  | ok a t =>
    rw [hp] at h
    exact h
  | error e t =>
    rw [hp] at h
    exact hhandle e t h

theorem ite {c : Prop} [Decidable c] (hp : c → Leaves E Q p s) (hq : ¬ c → Leaves E Q q s) : Leaves E Q (if c then p else q) s := by
  split
  · exact hp ‹_›
  · exact hq ‹_›

/-- Two postconditions together; the errors are those of the first. -/
theorem and (h : Leaves E Q p s) (h' : Leaves E' Q' p s) : Leaves E (fun a t => Q a t ∧ Q' a t) p s := by
  unfold Leaves at h ⊢
  cases hp : p s with
  | ok a t =>
    rw [hp] at h
    exact ⟨h, h'.of_ok hp⟩
  | error e t =>
    rw [hp] at h
    exact h

theorem get_bind {f : σ → EStateM ε σ β} (h : Leaves E R (f s) s) : Leaves E R (get >>= f) s := h

theorem modify {f : σ → σ} {Q : PUnit → σ → Prop} (h : Q ⟨⟩ (f s)) : Leaves E Q (modify f) s := h

theorem modify_bind {f : σ → σ} {g : PUnit → EStateM ε σ β} (h : Leaves E R (g ⟨⟩) (f s)) : Leaves E R (modifyThe σ f >>= g) s := h

/-- A computation without a state keeps the state. -/
theorem ofExcept_bind {x : Except ε α} {f : α → EStateM ε σ β} (hok : ∀ a, x = .ok a → Leaves E R (f a) s)
    (herror : ∀ e, x = .error e → E e s) : Leaves E R (MonadExcept.ofExcept x >>= f) s := by
  cases x with
  | ok a => exact hok a rfl
  | error e => exact herror e rfl

end Leaves

/-! ## Relations that hold between where a computation starts and where it ends -/

/-- Whether it fails or not, the computation ends in a state related to the one it starts in. -/
def Preserves (K : σ → σ → Prop) (p : EStateM ε σ α) : Prop := ∀ s, Leaves (fun _ t => K s t) (fun _ t => K s t) p s

namespace Preserves

variable {K K' : σ → σ → Prop} [IsPreorder σ K] {p q : EStateM ε σ α}

theorem pure (a : α) : Preserves K (pure a : EStateM ε σ α) := fun s => Leaves.pure (refl_of K s)

theorem throw (e : ε) : Preserves K (throw e : EStateM ε σ α) := fun s => Leaves.throw (refl_of K s)

theorem bind {f : α → EStateM ε σ β} (hp : Preserves K p) (hf : ∀ a, Preserves K (f a)) : Preserves K (p >>= f) := by
  intro s
  refine (hp s).bind fun a t hst => (hf a t).mono ?_ ?_
  · intro e u htu
    exact trans_of K hst htu
  · intro b u htu
    exact trans_of K hst htu

omit [IsPreorder σ K] in
theorem get_bind {f : σ → EStateM ε σ β} (hf : ∀ s, Preserves K (f s)) : Preserves K (get >>= f) := fun s => Leaves.get_bind (hf s s)

omit [IsPreorder σ K] in
theorem modify {f : σ → σ} (hf : ∀ s, K s (f s)) : Preserves K (modify f : EStateM ε σ PUnit) := fun s => Leaves.modify (hf s)

omit [IsPreorder σ K] in
theorem ite {c : Prop} [Decidable c] (hp : c → Preserves K p) (hq : ¬ c → Preserves K q) : Preserves K (if c then p else q) := by
  split
  · exact hp ‹_›
  · exact hq ‹_›

omit [IsPreorder σ K] in
theorem mono (hp : Preserves K p) (h : ∀ s t, K s t → K' s t) : Preserves K' p := fun s => (hp s).mono (fun _ => h s) fun _ => h s

end Preserves

/-- After a computation that preserves a relation, another from a related state. -/
theorem Leaves.bind_preserves {K : σ → σ → Prop} {E : ε → σ → Prop} {R : β → σ → Prop} {p : EStateM ε σ α} {f : α → EStateM ε σ β} {s : σ}
    (hp : Preserves K p) (hE : ∀ e t, K s t → E e t) (hf : ∀ a t, K s t → Leaves E R (f a) t) : Leaves E R (p >>= f) s :=
  ((hp s).mono hE fun _ _ h => h).bind hf

end KeptState
