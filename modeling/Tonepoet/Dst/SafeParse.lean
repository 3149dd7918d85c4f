import Tonepoet.Dst.Decoder
import Tonepoet.Dst.SegmentTables

/-!
# Parsers that cannot fault

`Safe Q c p`: from any reader with room for `c` more bits, `p` either ends in one of the errors a malformed
frame may have or returns a value that satisfies `Q`, and moves over at most `c` bits. It never panics, never
loops, and never reports one of the decoder's internal failures. The rules follow the shape of a parser; the
room is split along `>>=`.
-/

namespace Dst

open Rust BitString BitReader Hoare

/-- The errors of a `checked_` operation that fails, and of an arithmetic decoder that has lost its interval. -/
def DstError.internalFailure : DstError → Bool
  | .outputOverflow _ | .arithmeticDecodeFailure _ | .internalDecodeError _ => true
  | .invalidSegment msg =>
    msg ∈ ["invalid segment resolution bound", "invalid segment unit divisor", "frame is shorter than minimum segment",
      "segment count overflow", "segment length overflow", "segment exceeds frame length", "defined segment bits overflow",
      "segment byte length overflow", "segment byte budget underflow", "copied probability segment length overflow",
      "expanded segment length overflow", "expanded segment boundary overflow"]
  | .invalidMapping msg => msg = "table count overflow"
  | _ => false

/-- How a call may end without a value. -/
def Expected : Fault DstError → Prop
  | .err e => e.internalFailure = false
  | _ => False

/-! ## Computations without a reader -/

/-- A counting loop with an invariant. -/
theorem returns_forRange {σ : Type} {E : Fault DstError → Prop} (I : ℕ → σ → Prop) {f : σ → ℕ → Outcome DstError σ} {lo hi : ℕ}
    (hle : lo ≤ hi) (hstep : ∀ i, lo ≤ i → i < hi → ∀ s, I i s → Returns E (I (i + 1)) (f s i)) {s : σ} (hs : I lo s) :
    Returns E (I hi) (forRange lo hi s f) := by
  have h := Returns.foldlM (E := E) I f (List.range' lo (hi - lo)) lo s hs (by
    intro i hi' t ht
    rw [List.length_range'] at hi'
    rw [List.getElem_range', Nat.one_mul]
    exact hstep _ (by omega) (by omega) t ht)
  rwa [List.length_range', Nat.add_sub_cancel' hle] at h

namespace Sound

variable {α β σ : Type}

theorem fail {Q : α → Prop} {e : DstError} (h : e.internalFailure = false) :
    Returns Expected Q (Rust.fail e : Outcome DstError α) := h

theorem forRange (I : ℕ → σ → Prop) {f : σ → ℕ → Outcome DstError σ} {lo hi : ℕ} (hle : lo ≤ hi)
    (hstep : ∀ i, lo ≤ i → i < hi → ∀ s, I i s → Returns Expected (I (i + 1)) (f s i)) {s : σ} (hs : I lo s) :
    Returns Expected (I hi) (forRange lo hi s f) := returns_forRange I hle hstep hs

end Sound

/-! ## Parsers -/

/-- The reader can move over `c` more bits. -/
structure Room (r : BitReader) (c : ℕ) : Prop where
  fits : r.input.length * 8 ≤ usizeMax
  left : r.bitPos + c ≤ usizeMax

def Safe {α : Type} (Q : α → Prop) (c : ℕ) (p : Parse α) : Prop :=
  ∀ r, Room r c → Meets Expected (fun a t => Q a ∧ t.input = r.input ∧ t.bitPos ≤ r.bitPos + c) p r

namespace Safe

variable {α β σ : Type} {c k : ℕ}

theorem pure {Q : α → Prop} {a : α} (h : Q a) : Safe Q c (Pure.pure a) :=
  fun _ _ => Meets.pure ⟨h, rfl, Nat.le_add_right _ _⟩

theorem fail {Q : α → Prop} {e : DstError} (h : e.internalFailure = false) : Safe Q c (Rust.fail e) :=
  fun _ _ => Meets.throw h

theorem mono {Q Q' : α → Prop} {p : Parse α} (h : Safe Q c p) (hc : c ≤ k) (hQ : ∀ a, Q a → Q' a) : Safe Q' k p := by
  intro r hr
  refine (h r ⟨hr.fits, by have := hr.left; omega⟩).mono ?_
  rintro a t ⟨ha, hin, hpos⟩
  exact ⟨hQ a ha, hin, by omega⟩

/-- The sequence rule: what the first parser may spend is not there for the second. -/
theorem bind {Q : α → Prop} {R : β → Prop} {p : Parse α} {f : α → Parse β} (hp : Safe Q c p) (hc : c ≤ k)
    (hf : ∀ a, Q a → Safe R (k - c) (f a)) : Safe R k (p >>= f) := by
  intro r hr
  have hleft := hr.left
  refine (hp r ⟨hr.fits, by omega⟩).bind ?_
  rintro a t ⟨ha, hin, hpos⟩
  refine (hf a ha t ⟨by rw [hin]; exact hr.fits, by omega⟩).mono ?_
  rintro b u ⟨hb, hin', hpos'⟩
  exact ⟨hb, hin'.trans hin, by omega⟩

theorem ite {Q : α → Prop} {b : Prop} [Decidable b] {p q : Parse α} (hp : b → Safe Q c p) (hq : ¬ b → Safe Q c q) :
    Safe Q c (if b then p else q) := by
  split
  · exact hp ‹_›
  · exact hq ‹_›

/-- Two ways to a value and one continuation. -/
theorem ite_bind {γ : Type} {Q : α → Prop} {R : β → Prop} {b : Prop} [Decidable b] {p : Parse α} {q : Parse γ} {g : γ → α}
    {f : α → Parse β} (hp : b → Safe Q c p) (hq : ¬ b → Safe (fun z => Q (g z)) c q) (hc : c ≤ k)
    (hf : ∀ a, Q a → Safe R (k - c) (f a)) : Safe R k (if b then p >>= f else q >>= fun z => f (g z)) :=
  Safe.ite (fun hb => (hp hb).bind hc hf) fun hb => (hq hb).bind hc fun z hz => hf (g z) hz

theorem lift {Q : α → Prop} {x : Outcome DstError α} (h : Returns Expected Q x) : Safe Q c (liftM x : Parse α) := by
  intro r _
  refine (Meets.lift (s := r) h).mono ?_
  rintro a t ⟨ha, rfl⟩
  exact ⟨ha, rfl, Nat.le_add_right _ _⟩

/-- The loop rule: every turn may spend `c`. -/
theorem forRange (I : ℕ → σ → Prop) {f : σ → ℕ → Parse σ} {lo hi : ℕ} (hle : lo ≤ hi)
    (hstep : ∀ i, lo ≤ i → i < hi → ∀ s, I i s → Safe (I (i + 1)) c (f s i)) {s : σ} (hs : I lo s)
    (hk : (hi - lo) * c ≤ k) : Safe (I hi) k (forRange lo hi s f) := by
  intro r hr
  have hleft := hr.left
  have h := Meets.foldlM (E := Expected)
    (fun i s (t : BitReader) => I i s ∧ t.input = r.input ∧ t.bitPos ≤ r.bitPos + (i - lo) * c) f
    (List.range' lo (hi - lo)) lo s r ⟨hs, rfl, Nat.le_add_right _ _⟩ (by
      rintro i hi' u t ⟨hI, hin, hpos⟩
      rw [List.length_range'] at hi'
      rw [List.getElem_range', Nat.one_mul]
      have hsub : lo + i - lo = i := by omega
      have hsub' : lo + i + 1 - lo = i + 1 := by omega
      rw [hsub] at hpos
      rw [hsub']
      have hlt : (i + 1) * c ≤ (hi - lo) * c := Nat.mul_le_mul_right c hi'
      rw [Nat.add_mul, Nat.one_mul] at hlt ⊢
      refine (hstep _ (by omega) (by omega) u hI t ⟨by rw [hin]; exact hr.fits, by omega⟩).mono ?_
      rintro v w ⟨hv, hin', hpos'⟩
      exact ⟨hv, hin'.trans hin, by omega⟩)
  rw [List.length_range', Nat.add_sub_cancel' hle] at h
  refine h.mono ?_
  rintro u t ⟨hu, hin, hpos⟩
  exact ⟨hu, hin, by omega⟩

/-- A parser that does not pad, from a reader with room. -/
theorem meets_accepts {Q : α → Prop} {R : α → BitReader → Prop} {p : Parse α} (h : Safe Q c p) {r : BitReader}
    (ha : Accepts R p r) (hr : Room r k) (hc : c ≤ k) :
    Meets Expected (fun a t => Q a ∧ t.zeroPadAfterEof = false ∧ Room t (k - c)) p r := by
  have hleft := hr.left
  refine ((h r ⟨hr.fits, by omega⟩).and ha).mono ?_
  rintro a t ⟨⟨hQ, hin, hpos⟩, hpad, -⟩
  exact ⟨hQ, hpad, by rw [hin]; exact hr.fits, by omega⟩

end Safe

/-! ## Bits -/

theorem readBit_safe : Safe (fun _ => True) 1 readBit := by
  intro r hr
  have hfits := hr.fits
  have hleft := hr.left
  have hlen : ¬ usizeMax < r.input.length * 8 := by omega
  have hpos : ¬ usizeMax < r.bitPos + 1 := by omega
  refine (readBit_meets (fun h => absurd h hlen) (fun h => absurd h hpos)
    fun _ => show Expected (.err (.unexpectedEof r.input.length)) from rfl).mono ?_
  rintro b t ⟨rfl, -⟩
  exact ⟨trivial, rfl, le_rfl⟩

theorem readBitsLoop_safe : ∀ (n v : ℕ), (v + 1) * 2 ^ n ≤ 2 ^ 32 → Safe (· < (v + 1) * 2 ^ n) n (readBitsLoop n v)
  | 0, v, _ => Safe.pure (by simp)
  | n + 1, v, h => by
    refine readBit_safe.bind (by omega) fun b _ => ?_
    obtain ⟨hmod, hle⟩ := shift_bit_fits b h
    rw [hmod]
    exact (readBitsLoop_safe n _ (hle.trans h)).mono (by omega) fun w hw => hw.trans_le hle

theorem readBits_safe {n : ℕ} (hn : n ≤ 32) : Safe (· < 2 ^ n) n (readBits n) := by
  have hle : (0 + 1) * 2 ^ n ≤ 2 ^ 32 := by
    rw [Nat.zero_add, Nat.one_mul]
    exact Nat.pow_le_pow_right (by omega) hn
  unfold readBits
  refine Safe.ite (fun h => absurd h (by omega)) fun _ => ?_
  simpa using readBitsLoop_safe n 0 hle

theorem readSigned_safe {n : ℕ} (h0 : 0 < n) (hn : n < 32) :
    Safe (fun z : ℤ => -2 ^ n ≤ 2 * z ∧ 2 * z < 2 ^ n) n (readSigned n) := by
  unfold readSigned
  refine Safe.ite (fun h => absurd h (by omega)) fun _ => ?_
  refine (readBits_safe hn.le).bind le_rfl fun raw _ => Safe.pure ⟨?_, ?_⟩
  · exact BitVec.le_two_mul_toInt
  · exact BitVec.two_mul_toInt_lt

theorem i32_safe {z : ℤ} {c : ℕ} {Q : ℤ → Prop} (hlo : -2 ^ 31 ≤ z) (hhi : z < 2 ^ 31) (hQ : Q z) :
    Safe Q c (i32 z) := by
  rw [i32_of_fits hlo hhi]
  exact Safe.pure hQ

/-- A field as wide as a number with less than thirty-two bits. -/
theorem readRounded_safe {x : ℕ} (hx : x < 2 ^ 31) : Safe (· < 2 ^ 32) 31 (do readBits (← log2RoundUp x)) := by
  have hmod : x % 2 ^ 32 = x := Nat.mod_eq_of_lt (by omega)
  have hsize : Nat.size x ≤ 31 := Nat.size_le.2 hx
  rw [log2RoundUp_eq, hmod, if_pos (by omega), pure_bind]
  exact (readBits_safe (by omega)).mono hsize fun v hv => hv.trans_le (Nat.pow_le_pow_right (by omega) (by omega))

end Dst
