import Mathlib.Data.List.Induction
import Mathlib.Data.Nat.Bitwise
import Mathlib.Tactic.Ring

/-!
# Bit strings, most significant bit first

`value` reads a list of bits as a binary numeral, `ofNat n v` writes the low `n` bits of `v`.
The two are inverse (`value_ofNat`, `ofNat_value`), and `value` of a prefix is the value shifted
right by the length of what was cut off (`value_take`).
-/

namespace BitString

/-- The number a bit string denotes, most significant bit first. -/
def value (bs : List Bool) : ℕ := bs.foldl (fun v b => 2 * v + b.toNat) 0

/-- The low `n` bits of `v`, most significant first. -/
def ofNat : ℕ → ℕ → List Bool
  | 0, _ => []
  | n + 1, v => v.testBit n :: ofNat n v

@[simp] theorem value_nil : value [] = 0 := rfl

theorem value_concat (bs : List Bool) (b : Bool) : value (bs ++ [b]) = 2 * value bs + b.toNat := by
  simp [value, List.foldl_append]

theorem value_append (as bs : List Bool) : value (as ++ bs) = value as * 2 ^ bs.length + value bs := by
  induction bs using List.reverseRecOn with
  | nil => simp
  | append_singleton bs b ih =>
    rw [← List.append_assoc, value_concat, ih, value_concat]
    simp only [List.length_append, List.length_singleton, pow_succ]
    ring

theorem value_cons (b : Bool) (bs : List Bool) : value (b :: bs) = b.toNat * 2 ^ bs.length + value bs := by
  have h := value_append [b] bs
  simpa [value] using h

theorem value_lt (bs : List Bool) : value bs < 2 ^ bs.length := by
  induction bs with
  | nil => simp
  | cons b bs ih =>
    rw [value_cons, List.length_cons, pow_succ]
    cases b <;> simp <;> omega

@[simp] theorem value_replicate_false (n : ℕ) : value (List.replicate n false) = 0 := by
  induction n with
  | zero => rfl
  | succ n ih => rw [List.replicate_succ, value_cons, ih]; simp

/-- A prefix is the whole string shifted right by what was cut off. -/
theorem value_take (bs : List Bool) (k : ℕ) : value (bs.take k) = value bs / 2 ^ (bs.length - k) := by
  conv_rhs => rw [← List.take_append_drop k bs, value_append]
  have hlen : (bs.take k ++ bs.drop k).length - k = (bs.drop k).length := by
    rw [List.take_append_drop, List.length_drop]
  have hlt := value_lt (bs.drop k)
  rw [hlen, Nat.add_comm, Nat.add_mul_div_right _ _ (Nat.two_pow_pos _), Nat.div_eq_of_lt hlt, Nat.zero_add]

@[simp] theorem length_ofNat (n v : ℕ) : (ofNat n v).length = n := by
  induction n with
  | zero => rfl
  | succ n ih => simp [ofNat, ih]

theorem value_ofNat_mod (n v : ℕ) : value (ofNat n v) = v % 2 ^ n := by
  induction n with
  | zero => simp [ofNat, Nat.mod_one]
  | succ n ih =>
    rw [ofNat, value_cons, length_ofNat, ih, Nat.mod_pow_succ, Nat.toNat_testBit]
    ring

theorem value_ofNat {n v : ℕ} (h : v < 2 ^ n) : value (ofNat n v) = v := by
  rw [value_ofNat_mod, Nat.mod_eq_of_lt h]

/-- Two strings of one length with one value are one string. -/
theorem value_inj : ∀ {as bs : List Bool}, as.length = bs.length → value as = value bs → as = bs
  | [], [], _, _ => rfl
  | a :: as, b :: bs, hl, hv => by
    have hl' : as.length = bs.length := by simpa using hl
    have ha := value_lt as
    have hb := value_lt bs
    rw [value_cons, value_cons, hl'] at hv
    rw [hl'] at ha
    have hab : a = b := by
      cases a <;> cases b <;> simp at hv ⊢ <;> omega
    subst hab
    rw [value_inj hl' (by omega)]
  | [], _ :: _, hl, _ => by simp at hl
  | _ :: _, [], hl, _ => by simp at hl

theorem ofNat_value (bs : List Bool) : ofNat bs.length (value bs) = bs :=
  value_inj (by simp) (value_ofNat (value_lt bs))

/-- Bit `i` counted from the front. -/
theorem getElem?_ofNat {n v i : ℕ} (h : i < n) : (ofNat n v)[i]? = some (v.testBit (n - 1 - i)) := by
  induction n generalizing i with
  | zero => omega
  | succ n ih =>
    cases i with
    | zero => simp [ofNat]
    | succ i =>
      rw [ofNat, List.getElem?_cons_succ, ih (by omega)]
      congr 2
      omega

end BitString
