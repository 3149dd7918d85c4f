import Mathlib.Algebra.BigOperators.Intervals
import Mathlib.Algebra.BigOperators.Ring.Finset
import Mathlib.Algebra.CharP.Two
import Mathlib.Tactic.LinearCombination
import Mathlib.Tactic.Ring

/-!
# Systematic encoding with a shift register

Over a ring of characteristic two. A register holds the coefficients of a polynomial below the degree
of the generator, the highest first. Feeding a word multiplies by `X`, adds the word times `X ^ n` and
reduces by the generator, so at a root of the generator the register's value is the value of all the
words fed so far, times `x ^ n`.
-/

namespace ShiftRegister

variable {K : Type*} [CommRing K]

/-- The words `f 0, …, f (n - 1)` as a polynomial at `x`, the first word at the highest power. -/
def horner (x : K) (f : ℕ → K) (n : ℕ) : K := ∑ r ∈ Finset.range n, f r * x ^ (n - 1 - r)

theorem horner_succ (x : K) (f : ℕ → K) (n : ℕ) : horner x f (n + 1) = x * horner x f n + f n := by
  rw [horner, Finset.sum_range_succ, horner, Finset.mul_sum]
  congr 1
  · refine Finset.sum_congr rfl fun r hr => ?_
    have hr := Finset.mem_range.1 hr
    rw [mul_left_comm, ← pow_succ', show n - 1 - r + 1 = n + 1 - 1 - r by omega]
  · simp

theorem horner_succ' (x : K) (f : ℕ → K) (n : ℕ) :
    horner x f (n + 1) = f 0 * x ^ n + horner x (fun r => f (r + 1)) n := by
  rw [horner, Finset.sum_range_succ', horner, add_comm]
  congr 1
  refine Finset.sum_congr rfl fun r _ => ?_
  rw [show n + 1 - 1 - (r + 1) = n - 1 - r by omega]

theorem horner_congr {x : K} {f g : ℕ → K} {n : ℕ} (h : ∀ r < n, f r = g r) : horner x f n = horner x g n :=
  Finset.sum_congr rfl fun r hr => by rw [h r (Finset.mem_range.1 hr)]

/-- A register at `x`. -/
def value (x : K) : List K → K
  | [] => 0
  | w :: ws => w * x ^ ws.length + value x ws

theorem value_append_singleton (x : K) (ws : List K) (a : K) : value x (ws ++ [a]) = x * value x ws + a := by
  induction ws with
  | nil => simp [value]
  | cons w ws ih =>
    rw [List.cons_append, value, ih, value, List.length_append, List.length_singleton, pow_succ']
    ring

theorem value_replicate (x : K) (n : ℕ) : value x (List.replicate n 0) = 0 := by
  induction n with
  | zero => rfl
  | succ n ih => rw [List.replicate_succ, value, ih, zero_mul, add_zero]

theorem value_replicate_append (x : K) (n : ℕ) (ws : List K) : value x (List.replicate n 0 ++ ws) = value x ws := by
  induction n with
  | zero => rfl
  | succ n ih => rw [List.replicate_succ, List.cons_append, value, ih, zero_mul, zero_add]

theorem value_eq_horner (x : K) (ws : List K) : value x ws = horner x (fun i => ws.getD i 0) ws.length := by
  induction ws with
  | nil => simp [value, horner]
  | cons w ws ih =>
    rw [value, List.length_cons, horner_succ', ih]
    rfl

/-! ## Feeding -/

/-- One word into the register. -/
def feed (gx wr : List K) (d : K) : List K :=
  List.zipWith (fun w g => w + g * (wr.headD 0 + d)) (wr.tail ++ [0]) gx

theorem value_zipWith_add_mul (x c : K) : ∀ (ws gs : List K), ws.length = gs.length →
    value x (List.zipWith (fun w g => w + g * c) ws gs) = value x ws + value x gs * c
  | [], [], _ => by simp [value]
  | w :: ws, g :: gs, h => by
    have hlen : ws.length = gs.length := by simpa using h
    rw [List.zipWith_cons_cons, value, value_zipWith_add_mul x c ws gs hlen, value, value, List.length_zipWith, hlen,
      min_self]
    ring
  | [], _ :: _, h => by simp at h
  | _ :: _, [], h => by simp at h

theorem length_feed {gx wr : List K} {d : K} (h : wr.length = gx.length) (hpos : 0 < gx.length) :
    (feed gx wr d).length = gx.length := by
  simp [feed]
  omega

/-- At a root of the generator, feeding a word is a Horner step scaled by `x ^ n`. -/
theorem value_feed {x : K} {gx wr : List K} {d : K} (h : wr.length = gx.length) (hpos : 0 < gx.length)
    (hroot : value x gx = x ^ gx.length) : value x (feed gx wr d) = x * value x wr + x ^ gx.length * d := by
  rcases wr with _ | ⟨w, ws⟩
  · simp at h
    omega
  have hlen : (ws ++ [0]).length = gx.length := by simpa using h
  have hpow : x ^ gx.length = x * x ^ ws.length := by rw [← hlen, List.length_append, List.length_singleton, pow_succ']
  rw [feed, List.tail_cons, List.headD_cons, value_zipWith_add_mul x _ _ _ hlen, value_append_singleton, hroot, value,
    add_zero]
  rw [hpow]
  ring

/-- **The register is a systematic encoder.** -/
theorem value_foldl_feed {x : K} {gx : List K} (hpos : 0 < gx.length) (hroot : value x gx = x ^ gx.length) (f : ℕ → K)
    (n : ℕ) :
    ((List.range n).foldl (fun wr r => feed gx wr (f r)) (List.replicate gx.length 0)).length = gx.length ∧
      value x ((List.range n).foldl (fun wr r => feed gx wr (f r)) (List.replicate gx.length 0)) =
        x ^ gx.length * horner x f n := by
  induction n with
  | zero => simp [value_replicate, horner]
  | succ n ih =>
    rw [List.range_succ, List.foldl_append, List.foldl_cons, List.foldl_nil]
    refine ⟨length_feed ih.1 hpos, ?_⟩
    rw [value_feed ih.1 hpos hroot, ih.2, horner_succ]
    ring

/-! ## The generator -/

/-- Multiply a polynomial by `X + r`, dropping what leaves the register. -/
def mulRoot (r : K) : List K → List K
  | [] => []
  | [g] => [g * r]
  | g :: g' :: gs => (g * r + g') :: mulRoot r (g' :: gs)

theorem length_mulRoot (r : K) : ∀ gs : List K, (mulRoot r gs).length = gs.length
  | [] => rfl
  | [_] => rfl
  | _ :: g' :: gs => congrArg (· + 1) (length_mulRoot r (g' :: gs))

theorem value_mulRoot (x r g : K) : ∀ gs : List K,
    value x (mulRoot r (g :: gs)) + g * x ^ (gs.length + 1) = (x + r) * value x (g :: gs)
  | [] => by
    simp [mulRoot, value]
    ring
  | g' :: gs => by
    have ih := value_mulRoot x r g' gs
    rw [mulRoot, value, length_mulRoot, value, List.length_cons]
    linear_combination ih

/-- While the leading entries are zero nothing is dropped. -/
theorem mulRoot_replicate (r : K) (m : ℕ) (gs : List K) :
    ∃ gs', mulRoot r (List.replicate (m + 1) 0 ++ 1 :: gs) = List.replicate m 0 ++ 1 :: gs' := by
  induction m with
  | zero => exact ⟨_, by rw [List.replicate_one, List.singleton_append, mulRoot, zero_mul, zero_add, List.replicate_zero,
      List.nil_append]⟩
  | succ m ih =>
    obtain ⟨gs', h⟩ := ih
    refine ⟨gs', ?_⟩
    rw [List.replicate_succ, List.replicate_succ, List.cons_append, List.cons_append, mulRoot, ← List.cons_append,
      ← List.replicate_succ, h, List.replicate_succ, List.cons_append, zero_mul, zero_add]

/-- The generator with roots `root 0, …, root (n - 1)`, without its leading term. -/
def generator (root : ℕ → K) (n k : ℕ) : List K :=
  (List.range k).foldl (fun gs i => mulRoot (root i) gs) (List.replicate (n - 1) 0 ++ [1])

theorem generator_below (root : ℕ → K) (n : ℕ) : ∀ k, k < n → ∃ gs, generator root n k = List.replicate (n - 1 - k) 0 ++ 1 :: gs ∧
    ∀ x, value x (generator root n k) = ∏ i ∈ Finset.range k, (x + root i)
  | 0, _ => ⟨[], rfl, fun x => by simp [generator, value_replicate_append, value]⟩
  | k + 1, hk => by
    obtain ⟨gs, hgs, hval⟩ := generator_below root n k (by omega)
    have hstep : generator root n (k + 1) = mulRoot (root k) (generator root n k) := by
      rw [generator, List.range_succ, List.foldl_append]
      rfl
    obtain ⟨gs', hgs'⟩ := mulRoot_replicate (root k) (n - 1 - (k + 1)) gs
    rw [show n - 1 - (k + 1) + 1 = n - 1 - k by omega] at hgs'
    refine ⟨gs', by rw [hstep, hgs, hgs'], fun x => ?_⟩
    rw [Finset.prod_range_succ, ← hval x, hstep, hgs, mul_comm]
    rw [show n - 1 - k = (n - 1 - (k + 1)) + 1 by omega, List.replicate_succ, List.cons_append]
    have := value_mulRoot x (root k) 0 (List.replicate (n - 1 - (k + 1)) 0 ++ 1 :: gs)
    rwa [zero_mul, add_zero] at this

/-- **Every root of the generator is one.** -/
theorem value_generator [CharP K 2] (root : ℕ → K) {n : ℕ} {j : ℕ} (hj : j < n) :
    (generator root n n).length = n ∧ value (root j) (generator root n n) = root j ^ n := by
  obtain ⟨n, rfl⟩ := Nat.exists_eq_succ_of_ne_zero (by omega : n ≠ 0)
  obtain ⟨gs, hgs, hval⟩ := generator_below root (n + 1) n (Nat.lt_succ_self n)
  have hstep : generator root (n + 1) (n + 1) = mulRoot (root n) (generator root (n + 1) n) := by
    rw [generator, List.range_succ, List.foldl_append]
    rfl
  have hlen : ∀ k, (generator root (n + 1) k).length = n + 1 := by
    intro k
    induction k with
    | zero => simp [generator]
    | succ k ih =>
      rw [generator, List.range_succ, List.foldl_append]
      exact (length_mulRoot _ _).trans ih
  refine ⟨hlen _, ?_⟩
  have hgs' : generator root (n + 1) n = 1 :: gs := by rw [hgs, Nat.add_sub_cancel, Nat.sub_self]; rfl
  have hlast := value_mulRoot (root j) (root n) 1 gs
  have hgslen : gs.length = n := by have := hlen n; rw [hgs'] at this; simpa using this
  have hzero : (root j + root n) * value (root j) (1 :: gs) = 0 := by
    rw [← hgs', hval, mul_comm, ← Finset.prod_range_succ]
    exact Finset.prod_eq_zero (Finset.mem_range.2 hj) (CharTwo.add_self_eq_zero _)
  rw [hzero, one_mul, hgslen, ← hgs', ← hstep] at hlast
  exact CharTwo.add_eq_zero.1 hlast

end ShiftRegister
