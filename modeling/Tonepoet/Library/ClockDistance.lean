import Mathlib.Data.Nat.ModEq

/-!
# Distances on a clock

How many ticks forward from one reading of a clock to another, on a clock that starts over after `m` ticks.
-/

namespace ClockDistance

/-- The ticks from the reading `a` forward to the reading `b`. -/
def forward (m a b : ℕ) : ℕ := (b % m + (m - a % m)) % m

variable {m a b c d : ℕ}

theorem forward_lt (hm : 0 < m) : forward m a b < m := Nat.mod_lt _ hm

theorem forward_modEq (hm : 0 < m) : (a + forward m a b) % m = b % m := by
  have ha := Nat.mod_lt a hm
  rw [forward, Nat.add_mod_mod, ← Nat.mod_add_mod, show a % m + (b % m + (m - a % m)) = b % m + m by omega, Nat.add_mod_right, Nat.mod_mod]

/-- A distance is the one number below `m` that leads from one reading to the other. -/
theorem forward_eq_iff (hm : 0 < m) (hd : d < m) : forward m a b = d ↔ (a + d) % m = b % m := by
  constructor
  · rintro rfl
    exact forward_modEq hm
  · intro h
    have hsame : forward m a b ≡ d [MOD m] := Nat.ModEq.add_left_cancel' a ((forward_modEq hm).trans h.symm)
    exact hsame.eq_of_lt_of_lt (forward_lt hm) hd

/-- **A clock read after `d` ticks.** -/
theorem forward_add (hd : d < m) : forward m a ((a + d) % m) = d :=
  (forward_eq_iff (Nat.zero_lt_of_lt hd) hd).2 (Nat.mod_mod _ _).symm

/-- Distances add up, but for whole turns. -/
theorem forward_trans (hm : 0 < m) : forward m a c = (forward m a b + forward m b c) % m := by
  rw [forward_eq_iff hm (Nat.mod_lt _ hm), Nat.add_mod_mod, ← Nat.add_assoc, ← Nat.mod_add_mod, forward_modEq hm, Nat.mod_add_mod,
    forward_modEq hm]

end ClockDistance
