import Mathlib.Data.List.Basic

/-!
# Self-delimiting codes

A code is self-delimiting when a value's word can be told from whatever follows it. Such codes compose in
sequence, and lists of words are told apart as soon as the end of the list is. `Before rests code` asks it
only of continuations in `rests`, for codes with optional parts.
-/

variable {α β γ σ : Type*}

def SelfDelimiting (code : α → List σ) : Prop :=
  ∀ ⦃a b : α⦄ ⦃r s : List σ⦄, code a ++ r = code b ++ s → a = b ∧ r = s

namespace SelfDelimiting

def Before (rests : Set (List σ)) (code : α → List σ) : Prop :=
  ∀ ⦃a b : α⦄ ⦃r s : List σ⦄, r ∈ rests → s ∈ rests → code a ++ r = code b ++ s → a = b ∧ r = s

variable {code : α → List σ} {code' : β → List σ} {rests : Set (List σ)}

theorem before (h : SelfDelimiting code) : Before rests code := fun _ _ _ _ _ _ heq => h heq

theorem injective (h : SelfDelimiting code) : Function.Injective code := by
  intro a b hab
  exact (h (congrArg (· ++ []) hab)).1

theorem Before.injective (h : Before rests code) (hnil : [] ∈ rests) : Function.Injective code := by
  intro a b hab
  exact (h hnil hnil (congrArg (· ++ []) hab)).1

/-- Words of one length. -/
theorem of_length {n : ℕ} (hcode : Function.Injective code) (hlen : ∀ a, (code a).length = n) : SelfDelimiting code := by
  intro a b r s h
  have hsplit := List.append_inj h ((hlen a).trans (hlen b).symm)
  exact ⟨hcode hsplit.1, hsplit.2⟩

theorem split_at_letter {t : σ} : ∀ {xs ys r s : List σ}, t ∉ xs → t ∉ ys → xs ++ t :: r = ys ++ t :: s → xs = ys ∧ r = s
  | [], [], _, _, _, _, h => ⟨rfl, (List.cons.inj h).2⟩
  | [], _ :: _, _, _, _, hy, h => absurd (List.mem_cons.2 (.inl (List.cons.inj h).1)) hy
  | _ :: _, [], _, _, hx, _, h => absurd (List.mem_cons.2 (.inl (List.cons.inj h).1.symm)) hx
  | x :: xs, y :: ys, _, _, hx, hy, h => by
    obtain ⟨rfl, htail⟩ := List.cons.inj h
    obtain ⟨rfl, hrest⟩ := split_at_letter (fun hm => hx (List.mem_cons_of_mem _ hm)) (fun hm => hy (List.mem_cons_of_mem _ hm)) htail
    exact ⟨rfl, hrest⟩

/-- Words closed by a letter they do not contain. -/
theorem terminated {t : σ} (hcode : Function.Injective code) (hfree : ∀ a, t ∉ code a) :
    SelfDelimiting fun a => code a ++ [t] := by
  intro a b r s h
  simp only [List.append_assoc, List.singleton_append] at h
  obtain ⟨hword, hrest⟩ := split_at_letter (hfree a) (hfree b) h
  exact ⟨hcode hword, hrest⟩

/-- A word, and one that may depend on what it says. -/
theorem dependent {body : α → β → List σ} (h : SelfDelimiting code) (hbody : ∀ a, SelfDelimiting (body a)) :
    SelfDelimiting fun p : α × β => code p.1 ++ body p.1 p.2 := by
  rintro ⟨a, c⟩ ⟨b, d⟩ r s heq
  simp only [List.append_assoc] at heq
  obtain ⟨rfl, hbodies⟩ := h heq
  obtain ⟨rfl, hrest⟩ := hbody a hbodies
  exact ⟨rfl, hrest⟩

theorem comp (h : SelfDelimiting code) {f : γ → α} (hf : Function.Injective f) : SelfDelimiting fun c => code (f c) := by
  intro a b r s heq
  obtain ⟨hab, hrest⟩ := h heq
  exact ⟨hf hab, hrest⟩

/-- A list of words, up to the end. -/
theorem flatMap (h : SelfDelimiting code) (hne : ∀ a, code a ≠ []) : Function.Injective fun l : List α => l.flatMap code := by
  intro l
  induction l with
  | nil =>
    rintro (_ | ⟨b, m⟩) heq
    · rfl
    · exact absurd (List.append_eq_nil_iff.1 heq.symm).1 (hne b)
  | cons a l ih =>
    rintro (_ | ⟨b, m⟩) heq
    · exact absurd (List.append_eq_nil_iff.1 heq).1 (hne a)
    · obtain ⟨rfl, hrest⟩ := h heq
      rw [ih hrest]

/-! ## Words that know their place -/

/-- The words of a list, each told its position. -/
def indexed (word : ℕ → α → List σ) : ℕ → List α → List σ
  | _, [] => []
  | i, a :: l => word i a ++ indexed word (i + 1) l

/-- An indexed list can be told from what follows it, when no word can begin what follows. -/
theorem indexed_before {word : ℕ → α → List σ} {rests : Set (List σ)}
    (hword : ∀ i, Before {r | (∃ l, ∃ s ∈ rests, r = indexed word (i + 1) l ++ s)} (word i))
    (hstart : ∀ i a r, word i a ++ r ∉ rests) : ∀ i, Before rests (indexed word i) := by
  intro i l
  induction l generalizing i with
  | nil =>
    rintro (_ | ⟨b, m⟩) r s hr hs heq
    · exact ⟨rfl, heq⟩
    · rw [indexed, indexed, List.nil_append, List.append_assoc] at heq
      exact absurd (heq ▸ hr) (hstart i b _)
  | cons a l ih =>
    rintro (_ | ⟨b, m⟩) r s hr hs heq
    · rw [indexed, indexed, List.nil_append, List.append_assoc] at heq
      exact absurd (heq ▸ hs) (hstart i a _)
    · rw [indexed, indexed, List.append_assoc, List.append_assoc] at heq
      obtain ⟨rfl, hwords⟩ := hword i ⟨l, r, hr, rfl⟩ ⟨m, s, hs, rfl⟩ heq
      obtain ⟨rfl, hrest⟩ := ih (i + 1) hr hs hwords
      exact ⟨rfl, hrest⟩

end SelfDelimiting
