import Mathlib.Data.List.Induction
import Mathlib.Tactic.Basic

/-!
# Streams that are read in order and sought by number

A reader keeps counters beside the position it reads at. What a call may do to them is stated once, for the place a reader stands at,
and holds from there on for every sequence of calls.
-/

namespace SeekableStream

inductive Call where
  | next
  | seek (target : ℕ)

structure Stream (σ φ ε : Type) where
  next : σ → Except ε (Option φ) × σ
  seek : ℕ → σ → Except ε Unit × σ
  position : σ → ℕ
  count : σ → Option ℕ
  /-- The number an item carries. -/
  number : φ → ℕ
  /-- The call of `next` in this state fails when it has moved on already. -/
  trips : σ → Prop

variable {σ φ ε : Type} (S : Stream σ φ ε)

/-- One call. Beside the state goes whether the place may be lost: a call of `next` has tripped and no seek has succeeded since. -/
def Stream.after (s : σ × Prop) : Call → σ × Prop
  | .next => ((S.next s.1).2, s.2 ∨ S.trips s.1)
  | .seek target => ((S.seek target s.1).2, s.2 ∧ (S.seek target s.1).1 ≠ .ok ())

/-- The calls in turn, of a reader whose place is known. -/
def Stream.run (start : σ) (calls : List Call) : σ × Prop := calls.foldl S.after (start, False)

/-- What `next` has to return in a state. -/
structure Law (start s : σ) : Prop where
  /-- An item carries the position as its number, and a fresh reader returns it when it is positioned there. -/
  item : ∀ f, (S.next s).1 = .ok (some f) → S.number f = S.position s ∧
    ∀ fresh, S.seek (S.position s) start = (.ok (), fresh) → (S.next fresh).1 = .ok (some f)
  /-- So does a reader that any other calls have brought there. -/
  skipped : ∀ calls, ¬ (S.run start calls).2 → S.position (S.run start calls).1 = S.position s →
    (S.next (S.run start calls).1).1 = (S.next s).1
  ended : ∀ n, S.count s = some n → ((S.next s).1 = .ok none ↔ S.position s = n)

/-- A seek behind the end fails and changes nothing. -/
def RefusesPast (s : σ) : Prop :=
  ∀ n target, S.count s = some n → n < target → (∃ e, (S.seek target s).1 = .error e) ∧ (S.seek target s).2 = s

/-- The law holds after every sequence of calls that has not lost the place, and seeks behind the end are refused after every one. -/
def KeepsPlace (start : σ) : Prop :=
  ∀ calls, (¬ (S.run start calls).2 → Law S start (S.run start calls).1) ∧ RefusesPast S (S.run start calls).1

/-- What the single calls do: `Inside` is kept whatever happens, and `At k` says that the reader stands at item `k`. -/
structure Placed (Inside : σ → Prop) (At : ℕ → σ → Prop) : Prop where
  inside : ∀ {k s}, At k s → Inside s
  position : ∀ {k s}, At k s → S.position s = k
  agree : ∀ {k s t}, At k s → At k t → (S.next s).1 = (S.next t).1
  next_inside : ∀ {s}, Inside s → Inside (S.next s).2
  next_at : ∀ {k s}, At k s → ¬ S.trips s → ∃ j, At j (S.next s).2
  number : ∀ {k s f}, At k s → (S.next s).1 = .ok (some f) → S.number f = k
  ended : ∀ {k s n}, At k s → S.count s = some n → ((S.next s).1 = .ok none ↔ k = n)
  seek_at : ∀ {target s}, Inside s → (S.seek target s).1 = .ok () → At target (S.seek target s).2
  seek_error : ∀ {target s e}, (S.seek target s).1 = .error e → (S.seek target s).2 = s
  refuses : ∀ {s}, Inside s → RefusesPast S s

variable {S} {Inside : σ → Prop} {At : ℕ → σ → Prop} {start : σ}

theorem Stream.run_nil : S.run start [] = (start, False) := rfl

theorem Stream.run_concat (calls : List Call) (call : Call) : S.run start (calls ++ [call]) = S.after (S.run start calls) call := by
  rw [run, List.foldl_append]
  rfl

/-- A reader that never trips never loses its place. -/
theorem Stream.not_lost (h : ∀ s, ¬ S.trips s) (calls : List Call) : ¬ (S.run start calls).2 := by
  induction calls using List.reverseRecOn with
  | nil => exact not_false
  | append_singleton calls call ih =>
    rw [Stream.run_concat]
    cases call with
    | next => exact not_or.2 ⟨ih, h _⟩
    | seek target => exact fun hlost => ih hlost.1

/-- One call keeps the file, and the place unless it trips. -/
theorem Placed.after (h : Placed S Inside At) {s : σ × Prop} (hs : Inside s.1 ∧ (¬ s.2 → ∃ k, At k s.1)) (call : Call) :
    Inside (S.after s call).1 ∧ (¬ (S.after s call).2 → ∃ k, At k (S.after s call).1) := by
  obtain ⟨hinside, hplace⟩ := hs
  cases call with
  | next =>
    refine ⟨h.next_inside hinside, fun hkept => ?_⟩
    obtain ⟨hlost, htrips⟩ := not_or.1 hkept
    obtain ⟨k, hk⟩ := hplace hlost
    exact h.next_at hk htrips
  | seek target =>
    show Inside (S.seek target s.1).2 ∧ (¬ (s.2 ∧ (S.seek target s.1).1 ≠ .ok ()) → ∃ k, At k (S.seek target s.1).2)
    cases hseek : (S.seek target s.1).1 with
    | error e =>
      rw [h.seek_error hseek]
      refine ⟨hinside, fun hkept => hplace fun hlost => hkept ⟨hlost, ?_⟩⟩
      intro hok
      cases hok
    | ok u => exact ⟨h.inside (h.seek_at hinside hseek), fun _ => ⟨target, h.seek_at hinside hseek⟩⟩

theorem Placed.run (h : Placed S Inside At) (hstart : At 0 start) (calls : List Call) :
    Inside (S.run start calls).1 ∧ (¬ (S.run start calls).2 → ∃ k, At k (S.run start calls).1) := by
  induction calls using List.reverseRecOn with
  | nil => exact ⟨h.inside hstart, fun _ => ⟨0, hstart⟩⟩
  | append_singleton calls call ih =>
    rw [Stream.run_concat]
    exact h.after ih call

/-- **The rule of places.** A reader that starts at the first item keeps the law. -/
theorem Placed.keepsPlace (h : Placed S Inside At) (hstart : At 0 start) : KeepsPlace S start := by
  intro calls
  obtain ⟨hinside, hplace⟩ := h.run hstart calls
  refine ⟨fun hkept => ?_, h.refuses hinside⟩
  obtain ⟨k, hk⟩ := hplace hkept
  have hposition := h.position hk
  refine ⟨fun f hf => ⟨(h.number hk hf).trans hposition.symm, fun fresh hfresh => ?_⟩, fun others hothers hsame => ?_, fun n hn => ?_⟩
  · have hseek : (S.seek (S.position (S.run start calls).1) start).1 = .ok () := by rw [hfresh]
    have hat := h.seek_at (h.inside hstart) hseek
    rw [hfresh, hposition] at hat
    rw [h.agree hat hk, hf]
  · obtain ⟨j, hj⟩ := (h.run hstart others).2 hothers
    rw [h.position hj, hposition] at hsame
    subst hsame
    exact h.agree hj hk
  · rw [hposition]
    exact h.ended hk hn

end SeekableStream
