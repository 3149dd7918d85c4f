import Mathlib.Data.Nat.Log
import Tonepoet.Library.BitString

/-!
# Binary interval coding

An encoder keeps an interval `[low, low + width)` and narrows it once per coded bit; after each
narrowing the interval is scaled by a power of two so that `width` keeps `w` significant bits. Here
`low` is exact (no word size, no carry), so a run is a chain of nested intervals and the final `low`,
written with `w` bits more than the number of shifts, is a code for every prefix of the run.

* `step_within` / `encode_within`: each state's scaled interval contains every later one;
* `get_tracks`: a decoder that tracks a state reads back the bit the encoder coded there and tracks
  the next state. A word-sized encoder only has to show that it emits the digits of `low`.
-/

namespace IntervalCoder

open BitString

/-- The exact interval of an encoder that has shifted `shifts` times. -/
structure State where
  low : ℕ
  width : ℕ
  shifts : ℕ

/-- A coded bit and the width its zero branch gets out of the current width. -/
structure Symbol where
  bit : Bool
  split : ℕ → ℕ

/-- The one branch keeps the bottom of the interval, the zero branch the top `q`. -/
def State.narrow (s : State) (bit : Bool) (q : ℕ) : State :=
  if bit then ⟨s.low, s.width - q, s.shifts⟩ else ⟨s.low + (s.width - q), q, s.shifts⟩

def State.shift (s : State) (n : ℕ) : State := ⟨s.low * 2 ^ n, s.width * 2 ^ n, s.shifts + n⟩

/-- Shifts that bring a positive width below `2 ^ w` back to `w` significant bits. -/
def renorm (w a : ℕ) : ℕ := w - 1 - Nat.log 2 a

/-- The narrowing and the scaling of one coded bit. -/
def step (w : ℕ) (s : State) (x : Symbol) : State :=
  let t := s.narrow x.bit (x.split s.width)
  t.shift (renorm w t.width)

def encode (w : ℕ) : State → List Symbol → State := List.foldl (step w)

def start (w : ℕ) : State := ⟨0, 2 ^ w - 1, 0⟩

/-- The widths between two coded bits. -/
def Normal (w a : ℕ) : Prop := 2 ^ (w - 1) ≤ a ∧ a < 2 ^ w

/-- A symbol leaves both branches non-empty at every normalised width. -/
def Symbol.Fits (w : ℕ) (x : Symbol) : Prop := ∀ a, Normal w a → 0 < x.split a ∧ x.split a < a

/-! ## Normalisation -/

theorem renorm_normal {w a : ℕ} (hw : 0 < w) (h0 : 0 < a) (ha : a < 2 ^ w) :
    Normal w (a * 2 ^ renorm w a) := by
  have hlog : Nat.log 2 a < w := Nat.log_lt_of_lt_pow h0.ne' ha
  have hle := Nat.pow_log_le_self 2 h0.ne'
  have hlt := Nat.lt_pow_succ_log_self (b := 2) (by omega) a
  have hsum : Nat.log 2 a + renorm w a = w - 1 := by unfold renorm; omega
  constructor
  · calc 2 ^ (w - 1) = 2 ^ Nat.log 2 a * 2 ^ renorm w a := by rw [← pow_add, hsum]
      _ ≤ a * 2 ^ renorm w a := Nat.mul_le_mul_right _ hle
  · calc a * 2 ^ renorm w a < 2 ^ (Nat.log 2 a + 1) * 2 ^ renorm w a :=
          Nat.mul_lt_mul_of_pos_right hlt (Nat.two_pow_pos _)
      _ = 2 ^ w := by rw [← pow_add]; congr 1; omega

theorem start_normal {w : ℕ} (hw : 0 < w) : Normal w (start w).width := by
  have h : 2 ^ w = 2 * 2 ^ (w - 1) := by rw [← pow_succ']; congr 1; omega
  have := Nat.two_pow_pos (w - 1)
  simp only [Normal, start]
  omega

theorem narrow_width {w : ℕ} {s : State} {x : Symbol} (hs : Normal w s.width) (hx : x.Fits w) :
    0 < (s.narrow x.bit (x.split s.width)).width ∧ (s.narrow x.bit (x.split s.width)).width < 2 ^ w := by
  obtain ⟨h0, h1⟩ := hx _ hs
  have := hs.2
  unfold State.narrow
  split <;> simp <;> omega

theorem step_normal {w : ℕ} (hw : 0 < w) {s : State} {x : Symbol} (hs : Normal w s.width)
    (hx : x.Fits w) : Normal w (step w s x).width :=
  renorm_normal hw (narrow_width hs hx).1 (narrow_width hs hx).2

theorem encode_normal {w : ℕ} (hw : 0 < w) {xs : List Symbol} (hx : ∀ x ∈ xs, x.Fits w) :
    ∀ {s : State}, Normal w s.width → Normal w (encode w s xs).width := by
  induction xs with
  | nil => intro s hs; exact hs
  | cons x xs ih =>
    intro s hs
    exact ih (fun y hy => hx y (by simp [hy])) (step_normal hw hs (hx x (by simp)))

/-! ## Nested intervals -/

/-- `t` is a later state of a run through `s`: its interval lies in the scaled interval of `s`. -/
structure Within (t s : State) : Prop where
  shifts_le : s.shifts ≤ t.shifts
  low_le : s.low * 2 ^ (t.shifts - s.shifts) ≤ t.low
  high_le : t.low + t.width ≤ (s.low + s.width) * 2 ^ (t.shifts - s.shifts)

theorem Within.refl (s : State) : Within s s := ⟨le_rfl, by simp, by simp⟩

theorem Within.trans {r s t : State} (h : Within t s) (h' : Within s r) : Within t r := by
  have hd : t.shifts - r.shifts = (s.shifts - r.shifts) + (t.shifts - s.shifts) := by
    have := h.shifts_le; have := h'.shifts_le; omega
  refine ⟨h'.shifts_le.trans h.shifts_le, ?_, ?_⟩
  · calc r.low * 2 ^ (t.shifts - r.shifts)
        = r.low * 2 ^ (s.shifts - r.shifts) * 2 ^ (t.shifts - s.shifts) := by rw [hd, pow_add]; ring
      _ ≤ s.low * 2 ^ (t.shifts - s.shifts) := Nat.mul_le_mul_right _ h'.low_le
      _ ≤ t.low := h.low_le
  · calc t.low + t.width ≤ (s.low + s.width) * 2 ^ (t.shifts - s.shifts) := h.high_le
      _ ≤ (r.low + r.width) * 2 ^ (s.shifts - r.shifts) * 2 ^ (t.shifts - s.shifts) :=
          Nat.mul_le_mul_right _ h'.high_le
      _ = (r.low + r.width) * 2 ^ (t.shifts - r.shifts) := by rw [hd, pow_add]; ring

theorem narrow_within (s : State) (b : Bool) {q : ℕ} (hq : q ≤ s.width) : Within (s.narrow b q) s := by
  unfold State.narrow
  split <;> refine ⟨le_rfl, ?_, ?_⟩ <;> simp
  omega

theorem shift_within (s : State) (n : ℕ) : Within (s.shift n) s := by
  refine ⟨by simp [State.shift], ?_, ?_⟩ <;> simp [State.shift, Nat.add_mul]

theorem step_within {w : ℕ} {s : State} {x : Symbol} (hs : Normal w s.width) (hx : x.Fits w) :
    Within (step w s x) s :=
  (shift_within _ _).trans (narrow_within s x.bit (hx _ hs).2.le)

theorem encode_within {w : ℕ} (hw : 0 < w) {xs : List Symbol} (hx : ∀ x ∈ xs, x.Fits w) :
    ∀ {s : State}, Normal w s.width → Within (encode w s xs) s := by
  induction xs with
  | nil => intro s _; exact Within.refl s
  | cons x xs ih =>
    intro s hs
    have hx0 := hx x (by simp)
    exact (ih (fun y hy => hx y (by simp [hy])) (step_normal hw hs hx0)).trans (step_within hs hx0)

/-- Every state of a run stays below the end of the first interval, so `low` has `w + shifts` digits. -/
theorem encode_low_lt {w : ℕ} (hw : 0 < w) {xs : List Symbol} (hx : ∀ x ∈ xs, x.Fits w) :
    (encode w (start w) xs).low + (encode w (start w) xs).width < 2 ^ (w + (encode w (start w) xs).shifts) := by
  have h := (encode_within hw hx (start_normal hw)).high_le
  have hp := Nat.two_pow_pos w
  have hq := Nat.two_pow_pos (encode w (start w) xs).shifts
  calc _ ≤ (2 ^ w - 1) * 2 ^ (encode w (start w) xs).shifts := by simpa [start] using h
    _ < 2 ^ w * 2 ^ (encode w (start w) xs).shifts := Nat.mul_lt_mul_of_pos_right (by omega) hq
    _ = _ := by rw [pow_add]

theorem encode_shifts_le {w : ℕ} (xs : List Symbol) : ∀ s : State,
    (encode w s xs).shifts ≤ s.shifts + (w - 1) * xs.length := by
  induction xs with
  | nil => intro s; simp [encode]
  | cons x xs ih =>
    intro s
    have hstep : (step w s x).shifts ≤ s.shifts + (w - 1) := by
      have : (s.narrow x.bit (x.split s.width)).shifts = s.shifts := by unfold State.narrow; split <;> rfl
      simp only [step, State.shift, this, renorm]
      omega
    have := ih (step w s x)
    rw [encode, List.foldl_cons]
    rw [encode] at this
    rw [List.length_cons, Nat.mul_succ]
    omega

/-- The final `low`, cut to the digits a state has seen, lies in that state's interval. -/
theorem Within.cut {s t : State} (h : Within t s) (hw : 0 < t.width) :
    s.low ≤ t.low / 2 ^ (t.shifts - s.shifts) ∧ t.low / 2 ^ (t.shifts - s.shifts) < s.low + s.width := by
  have hp := Nat.two_pow_pos (t.shifts - s.shifts)
  refine ⟨(Nat.le_div_iff_mul_le hp).2 h.low_le, (Nat.div_lt_iff_lt_mul hp).2 ?_⟩
  have := h.high_le
  omega

/-! ## Decoding -/

/-- A decoder's registers, and how many bits of the code it has read. -/
structure Decoder where
  width : ℕ
  code : ℕ
  pos : ℕ

/-- Read back one bit whose zero branch has width `q`, then refill from the code string. -/
def Decoder.get (w : ℕ) (code : List Bool) (d : Decoder) (q : ℕ) : Bool × Decoder :=
  let bit := decide (d.code < d.width - q)
  let a := if bit then d.width - q else q
  let c := if bit then d.code else d.code - (d.width - q)
  let n := renorm w a
  (bit, ⟨a * 2 ^ n, c * 2 ^ n + value ((code.drop d.pos).take n), d.pos + n⟩)

def Decoder.start (w : ℕ) (code : List Bool) : Decoder := ⟨2 ^ w - 1, value (code.take w), w⟩

/-- The decoder holds the state's width and the code's distance from the state's `low`. -/
structure Tracks (w : ℕ) (code : List Bool) (s : State) (d : Decoder) : Prop where
  width : d.width = s.width
  pos : d.pos = w + s.shifts
  code : value (code.take d.pos) = s.low + d.code

/-- `code` is the final `low` of a run that ends in `t`, with all its digits. -/
structure Codes (w : ℕ) (code : List Bool) (t : State) : Prop where
  length_eq : code.length = w + t.shifts
  value_eq : value code = t.low
  width_pos : 0 < t.width

theorem start_tracks (w : ℕ) (code : List Bool) : Tracks w code (start w) (Decoder.start w code) :=
  ⟨rfl, rfl, by simp [start, Decoder.start]⟩

theorem Codes.cut {w : ℕ} {code : List Bool} {s t : State} (hc : Codes w code t) (h : Within t s) :
    s.low ≤ value (code.take (w + s.shifts)) ∧ value (code.take (w + s.shifts)) < s.low + s.width := by
  have hle := h.shifts_le
  rw [value_take, hc.value_eq, hc.length_eq, show w + t.shifts - (w + s.shifts) = t.shifts - s.shifts by omega]
  exact h.cut hc.width_pos

/-- A decoder that tracks a state of the run has its code inside the interval and has not read too far. -/
theorem Tracks.in_range {w : ℕ} {code : List Bool} {s t : State} {d : Decoder} (hc : Codes w code t) (h : Within t s)
    (hd : Tracks w code s d) : d.code < d.width ∧ d.pos ≤ code.length := by
  have hcut := hc.cut h
  have hcode := hd.code
  have hlen := hc.length_eq
  have hle := h.shifts_le
  rw [hd.pos] at hcode
  rw [hd.width, hd.pos]
  omega

theorem value_take_add (code : List Bool) {k n : ℕ} (h : k + n ≤ code.length) :
    value (code.take (k + n)) = value (code.take k) * 2 ^ n + value ((code.drop k).take n) := by
  rw [List.take_add, value_append, List.length_take, List.length_drop, min_eq_left (by omega)]

/-- **One decoded bit.** A decoder that tracks `s` reads the bit the encoder coded from `s` and tracks
    the encoder's next state, whatever is coded after it. -/
theorem get_tracks {w : ℕ} {code : List Bool} {s t : State} {x : Symbol} {d : Decoder}
    (hc : Codes w code t) (hs : Normal w s.width) (hx : x.Fits w) (ht : Within t (step w s x))
    (hd : Tracks w code s d) :
    (d.get w code (x.split s.width)).1 = x.bit ∧ Tracks w code (step w s x) (d.get w code (x.split s.width)).2 := by
  obtain ⟨hq0, hq1⟩ := hx _ hs
  set q := x.split s.width with hq
  have hpos := hd.pos
  have hcode := hd.code
  have hcut := hc.cut (ht.trans (shift_within _ _))
  simp only [State.narrow, ← hq] at hcut
  -- the interval of the branch taken decides which side of the split the code is on
  have hbit : decide (d.code < d.width - q) = x.bit := by
    rw [hd.width]
    cases hb : x.bit <;> simp [hb, ← hpos, hcode] at hcut ⊢ <;> omega
  have hlen : d.pos + renorm w (s.narrow x.bit q).width ≤ code.length := by
    have h1 := ht.shifts_le
    have h2 := hc.length_eq
    have h3 : (s.narrow x.bit q).shifts = s.shifts := by unfold State.narrow; split <;> rfl
    simp only [step, State.shift, ← hq, h3] at h1
    omega
  refine ⟨hbit, ?_⟩
  unfold Decoder.get
  rw [hbit]
  cases hb : x.bit
  · simp only [hb, State.narrow, Bool.false_eq_true, if_false] at hlen ⊢ hcut
    refine ⟨by simp [step, State.shift, State.narrow, hb, ← hq], ?_, ?_⟩
    · simp [step, State.shift, State.narrow, hb, ← hq, hpos, Nat.add_assoc]
    · rw [value_take_add code hlen, hcode]
      simp only [step, State.shift, State.narrow, hb, ← hq, Bool.false_eq_true, if_false]
      rw [← hpos, hcode] at hcut
      rw [← Nat.add_assoc, ← Nat.add_mul, hd.width]
      congr 2
      omega
  · simp only [hb, State.narrow, if_true] at hlen ⊢ hcut
    refine ⟨by simp [step, State.shift, State.narrow, hb, ← hq, hd.width], ?_, ?_⟩
    · simp [step, State.shift, State.narrow, hb, ← hq, hpos, hd.width, Nat.add_assoc]
    · rw [hd.width]
      rw [value_take_add code hlen, hcode]
      simp only [step, State.shift, State.narrow, hb, ← hq, if_true]
      rw [← Nat.add_assoc, ← Nat.add_mul]

end IntervalCoder
