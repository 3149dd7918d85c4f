import Mathlib.Algebra.Order.Ring.Nat
import Mathlib.Tactic.Linarith
import Mathlib.Tactic.Ring

/-!
# From samples to ticks and back

A tick lasts `n / d` samples. A position is stored as the nearest tick, and the tick is read back as the nearest sample; what is lost is half
a tick and half a sample, and positions that are two ticks apart stay apart.
-/

namespace TickRounding

/-- The tick is a nearest one to the sample. -/
def Nearest (n d sample tick : ℕ) : Prop := 2 * (tick * n) ≤ 2 * (sample * d) + n ∧ 2 * (sample * d) ≤ 2 * (tick * n) + n

/-- The nearest sample to a tick, halves up. -/
def readBack (n d tick : ℕ) : ℕ := (tick * n + d / 2) / d

/-- Half a tick in samples, rounded up, and one more. -/
def tolerance (n d : ℕ) : ℕ := (n + (2 * d - 1)) / (2 * d) + 1

variable {n d s e t u : ℕ}

theorem readBack_le (hd : 0 < d) : d * readBack n d t ≤ t * n + d / 2 ∧ t * n + d / 2 < d * readBack n d t + d := by
  have hdiv := Nat.div_add_mod (t * n + d / 2) d
  have hmod := Nat.mod_lt (t * n + d / 2) hd
  rw [readBack]
  omega

theorem nearest_zero (hn : 0 < n) (h : Nearest n d 0 t) : t = 0 := by
  obtain ⟨hle, -⟩ := h
  by_contra hne
  have hpos : n ≤ t * n := Nat.le_mul_of_pos_left n (Nat.pos_of_ne_zero hne)
  omega

theorem readBack_zero (hd : 0 < d) : readBack n d 0 = 0 := by
  rw [readBack, Nat.zero_mul, Nat.zero_add, Nat.div_eq_of_lt (by omega)]

theorem le_tolerance (hd : 0 < d) : n + 2 * d ≤ 2 * d * tolerance n d := by
  have hdiv := Nat.div_add_mod (n + (2 * d - 1)) (2 * d)
  have hmod := Nat.mod_lt (n + (2 * d - 1)) (show 0 < 2 * d by omega)
  rw [tolerance, Nat.mul_add]
  omega

/-- What is read back differs by no more than the tolerance. -/
theorem readBack_near (hd : 0 < d) (h : Nearest n d s t) : readBack n d t ≤ s + tolerance n d ∧ s ≤ readBack n d t + tolerance n d := by
  obtain ⟨hle, hge⟩ := h
  obtain ⟨hlow, hhigh⟩ := readBack_le (n := n) (t := t) hd
  have htolerance := le_tolerance (n := n) hd
  generalize readBack n d t = b at *
  generalize tolerance n d = c at *
  generalize t * n = x at *
  constructor
  · by_contra hnot
    have hfar : d * (s + c + 1) ≤ d * b := Nat.mul_le_mul_left d (by omega)
    have hexpand : d * (s + c + 1) = s * d + d * c + d := by ring
    have htwice : 2 * d * c = 2 * (d * c) := by ring
    omega
  · by_contra hnot
    have hfar : d * (b + c + 1) ≤ d * s := Nat.mul_le_mul_left d (by omega)
    have hexpand : d * (b + c + 1) = d * b + d * c + d := by ring
    have hcomm : d * s = s * d := by ring
    have htwice : 2 * d * c = 2 * (d * c) := by ring
    omega

/-- Ticks that are short against a sample are read back exactly. -/
theorem readBack_exact (hn : 0 < n) (hshort : 2 * n ≤ d) (h : Nearest n d s t) : readBack n d t = s := by
  obtain ⟨hle, hge⟩ := h
  rw [readBack, Nat.div_eq_iff (by omega)]
  generalize t * n = x at *
  constructor <;> omega

/-- Positions at least two ticks apart are read back in their order. -/
theorem readBack_lt (hn : 0 < n) (hd : 0 < d) (hs : Nearest n d s t) (he : Nearest n d e u) (hlt : s < e) (hticks : 2 * n ≤ d * (e - s)) :
    readBack n d t < readBack n d u := by
  obtain ⟨k, rfl⟩ := Nat.exists_eq_add_of_lt hlt
  cases k with
  | zero =>
    have hshort : 2 * n ≤ d := by simpa using hticks
    rw [readBack_exact hn hshort hs, readBack_exact hn hshort he]
    omega
  | succ k =>
    have hlength : d * (s + (k + 1) + 1 - s) = d * k + 2 * d := by
      rw [show s + (k + 1) + 1 - s = k + 2 by omega]
      ring
    have hpos : (s + (k + 1) + 1) * d = s * d + d * k + 2 * d := by ring
    obtain ⟨hsle, -⟩ := hs
    obtain ⟨-, hege⟩ := he
    rw [hpos] at hege
    rw [hlength] at hticks
    have hstep : t * n + d ≤ u * n := by
      generalize t * n = x at *
      generalize u * n = y at *
      omega
    calc readBack n d t < readBack n d t + 1 := Nat.lt_succ_self _
      _ = (t * n + d / 2 + d) / d := (Nat.add_div_right _ hd).symm
      _ ≤ readBack n d u := Nat.div_le_div_right (by omega)

theorem readBack_mono (h : t ≤ u) : readBack n d t ≤ readBack n d u :=
  Nat.div_le_div_right (Nat.add_le_add_right (Nat.mul_le_mul_right n h) _)

end TickRounding
