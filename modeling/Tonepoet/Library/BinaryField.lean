import Mathlib.Algebra.CharP.Two
import Mathlib.Algebra.Field.ZMod
import Mathlib.FieldTheory.Finiteness
import Mathlib.GroupTheory.OrderOfElement
import Mathlib.RingTheory.AdjoinRoot

/-!
# Machine words as a binary field

The `w`-bit words under xor are the polynomials over GF(2) of degree below `w`. A word `p` of low
coefficients gives the modulus `X ^ w + p`; words then stand for the elements of the quotient, and
doubling with reduction is multiplication by the root. When the root has order `2 ^ w - 1` the
modulus is irreducible and every nonzero element is a power of the root.
-/

namespace BinaryField

open Polynomial

variable {w : ℕ}

/-! ## Words as polynomials -/

/-- The polynomial whose coefficients are the bits of a word. -/
noncomputable def ofBits (a : BitVec w) : (ZMod 2)[X] :=
  ∑ i ∈ Finset.range w, if a.getLsbD i then X ^ i else 0

theorem coeff_ofBits (a : BitVec w) (i : ℕ) : (ofBits a).coeff i = if a.getLsbD i then 1 else 0 := by
  have hterm : ∀ j, (if a.getLsbD j then (X : (ZMod 2)[X]) ^ j else 0).coeff i = if i = j ∧ a.getLsbD j then 1 else 0 := by
    intro j
    by_cases hj : a.getLsbD j
    · simp [hj, coeff_X_pow]
    · simp [hj]
  rw [ofBits, finsetSum_coeff, Finset.sum_congr rfl fun j _ => hterm j]
  by_cases hi : i < w
  · rw [Finset.sum_eq_single i (fun j _ hj => by simp [Ne.symm hj]) (fun h => absurd (Finset.mem_range.2 hi) h)]
    simp
  · have hbit : a.getLsbD i = false := BitVec.getLsbD_of_ge a i (by omega)
    rw [hbit, Finset.sum_eq_zero]
    · simp
    · intro j hj
      have : i ≠ j := by have := Finset.mem_range.1 hj; omega
      simp [this]

theorem degree_ofBits_lt (a : BitVec w) : (ofBits a).degree < w := by
  rw [degree_lt_iff_coeff_zero]
  intro i hi
  rw [coeff_ofBits, BitVec.getLsbD_of_ge a i hi]
  rfl

theorem ofBits_injective : Function.Injective (ofBits (w := w)) := by
  intro a b h
  apply BitVec.eq_of_getLsbD_eq
  intro i _
  have hi := congrArg (fun q => coeff q i) h
  simp only [coeff_ofBits] at hi
  by_cases ha : a.getLsbD i <;> by_cases hb : b.getLsbD i <;> simp_all

@[simp] theorem ofBits_zero : ofBits 0#w = 0 := by simp [ofBits]

theorem ofBits_xor (a b : BitVec w) : ofBits (a ^^^ b) = ofBits a + ofBits b := by
  ext i
  rw [coeff_add, coeff_ofBits, coeff_ofBits, coeff_ofBits, BitVec.getLsbD_xor]
  cases a.getLsbD i <;> cases b.getLsbD i <;> decide

/-- The modulus with low coefficients `p`. -/
noncomputable def modulus (p : BitVec w) : (ZMod 2)[X] := X ^ w + ofBits p

theorem monic_modulus (p : BitVec w) : (modulus p).Monic := monic_X_pow_add (degree_ofBits_lt p)

theorem natDegree_modulus (p : BitVec w) : (modulus p).natDegree = w := by
  apply natDegree_eq_of_degree_eq_some
  rw [modulus, degree_add_eq_left_of_degree_lt] <;> rw [degree_X_pow]
  exact degree_ofBits_lt p

/-! ## Words as elements of the quotient -/

/-- The element a word stands for. -/
noncomputable def ofWord (p a : BitVec w) : AdjoinRoot (modulus p) := AdjoinRoot.mk (modulus p) (ofBits a)

theorem ofWord_injective (p : BitVec w) : Function.Injective (ofWord p) := by
  intro a b h
  apply ofBits_injective
  have hdvd : modulus p ∣ ofBits a - ofBits b := AdjoinRoot.mk_eq_mk.1 h
  have hdeg : (ofBits a - ofBits b).degree < (modulus p).degree := by
    refine lt_of_lt_of_eq (lt_of_le_of_lt (degree_sub_le _ _) (max_lt (degree_ofBits_lt a) (degree_ofBits_lt b))) ?_
    rw [degree_eq_natDegree (monic_modulus p).ne_zero, natDegree_modulus]
  exact sub_eq_zero.1 (eq_zero_of_dvd_of_degree_lt hdvd hdeg)

@[simp] theorem ofWord_zero (p : BitVec w) : ofWord p 0#w = 0 := by simp [ofWord]

theorem ofWord_xor (p a b : BitVec w) : ofWord p (a ^^^ b) = ofWord p a + ofWord p b := by
  rw [ofWord, ofBits_xor, map_add]
  rfl

theorem ofWord_eq_zero {p a : BitVec w} : ofWord p a = 0 ↔ a = 0 := by
  constructor
  · intro h
    exact ofWord_injective p (h.trans (ofWord_zero p).symm)
  · rintro rfl
    exact ofWord_zero p

theorem ofWord_one (p : BitVec w) (hw : 0 < w) : ofWord p 1#w = 1 := by
  have h : ofBits 1#w = 1 := by
    ext i
    rw [coeff_ofBits, coeff_one]
    by_cases hi : i = 0
    · subst hi
      simp [hw]
    · simp [hi, BitVec.getLsbD_one]
  rw [ofWord, h, map_one]

/-- An element is the sum of the powers of the root at its word's bits. -/
theorem ofWord_eq_sum (p a : BitVec w) :
    ofWord p a = ∑ i ∈ Finset.range w, if a.getLsbD i then AdjoinRoot.root (modulus p) ^ i else 0 := by
  rw [ofWord, ofBits, map_sum]
  refine Finset.sum_congr rfl fun i _ => ?_
  rw [apply_ite (AdjoinRoot.mk (modulus p)), map_pow, map_zero, AdjoinRoot.mk_X]

/-! ## Doubling, products and powers of words -/

/-- Shift left by one and reduce. -/
def double (p a : BitVec w) : BitVec w := if a.msb then (a <<< 1) ^^^ p else a <<< 1

theorem X_mul_ofBits (a : BitVec w) : X * ofBits a = ofBits (a <<< 1) + if a.msb then X ^ w else 0 := by
  ext i
  have hmsb : (if a.msb then (X : (ZMod 2)[X]) ^ w else 0).coeff i = if a.msb ∧ i = w then 1 else 0 := by
    by_cases hm : a.msb
    · simp [hm, coeff_X_pow]
    · simp [hm]
  rw [coeff_add, hmsb, coeff_ofBits, BitVec.getLsbD_shiftLeft, BitVec.msb_eq_getLsbD_last]
  cases i with
  | zero =>
    rw [mul_comm, mul_coeff_zero]
    rcases Nat.eq_zero_or_pos w with rfl | hw
    · simp
    · simp [hw.ne]
  | succ i =>
    rw [coeff_X_mul, coeff_ofBits]
    rcases lt_trichotomy (i + 1) w with h | h | h
    · simp [h, h.ne]
    · subst h
      simp
    · rw [BitVec.getLsbD_of_ge a i (by omega)]
      simp [show i + 1 ≠ w by omega, show ¬ i + 1 < w by omega]

theorem ofWord_double (p a : BitVec w) : ofWord p (double p a) = AdjoinRoot.root (modulus p) * ofWord p a := by
  have hroot : AdjoinRoot.root (modulus p) * ofWord p a = AdjoinRoot.mk (modulus p) (X * ofBits a) := by
    rw [map_mul, AdjoinRoot.mk_X, ofWord]
  have htop : AdjoinRoot.mk (modulus p) (X ^ w) = ofWord p p := by
    rw [ofWord, AdjoinRoot.mk_eq_mk, sub_eq_add_neg, CharTwo.neg_eq]
    exact dvd_rfl
  rw [hroot, X_mul_ofBits, map_add]
  by_cases hm : a.msb
  · rw [double, if_pos hm, if_pos hm, ofWord_xor, htop]
    rfl
  · rw [double, if_neg hm, if_neg hm, map_zero, add_zero]
    rfl

/-- The product by Horner's rule over the `k` top bits of `b`. -/
def mulTop (p a b : BitVec w) : ℕ → BitVec w
  | 0 => 0
  | k + 1 => double p (mulTop p a b k) ^^^ if b.getLsbD (w - 1 - k) then a else 0

def mulWord (p a b : BitVec w) : BitVec w := mulTop p a b w

theorem ofWord_mulTop (p a b : BitVec w) (k : ℕ) :
    ofWord p (mulTop p a b k) =
      ofWord p a * ∑ i ∈ Finset.range k, if b.getLsbD (w - 1 - i) then AdjoinRoot.root (modulus p) ^ (k - 1 - i) else 0 := by
  induction k with
  | zero => simp [mulTop]
  | succ k ih =>
    have hshift : ∀ i ∈ Finset.range k,
        (if b.getLsbD (w - 1 - i) then AdjoinRoot.root (modulus p) ^ (k + 1 - 1 - i) else 0) =
          AdjoinRoot.root (modulus p) * if b.getLsbD (w - 1 - i) then AdjoinRoot.root (modulus p) ^ (k - 1 - i) else 0 := by
      intro i hi
      have hi := Finset.mem_range.1 hi
      rw [mul_ite, mul_zero, ← pow_succ', show k - 1 - i + 1 = k + 1 - 1 - i by omega]
    have hlast : ofWord p (if b.getLsbD (w - 1 - k) then a else 0) =
        ofWord p a * if b.getLsbD (w - 1 - k) then AdjoinRoot.root (modulus p) ^ (k + 1 - 1 - k) else 0 := by
      by_cases hb : b.getLsbD (w - 1 - k)
      · simp [hb]
      · simp [hb]
    rw [mulTop, ofWord_xor, ofWord_double, ih, Finset.sum_range_succ, Finset.sum_congr rfl hshift, ← Finset.mul_sum,
      mul_add, hlast]
    ring

theorem ofWord_mulWord (p a b : BitVec w) : ofWord p (mulWord p a b) = ofWord p a * ofWord p b := by
  rw [mulWord, ofWord_mulTop, ofWord_eq_sum p b, ← Finset.sum_range_reflect]
  congr 1
  refine Finset.sum_congr rfl fun i hi => ?_
  have hi := Finset.mem_range.1 hi
  rw [show w - 1 - (w - 1 - i) = i by omega]

/-- The power by repeated squaring, for exponents below `2 ^ k`. -/
def powWord (p a : BitVec w) : ℕ → ℕ → BitVec w
  | 0, _ => 1#w
  | k + 1, n =>
    let s := powWord p a k (n / 2)
    if n % 2 = 1 then mulWord p (mulWord p s s) a else mulWord p s s

theorem ofWord_powWord (p a : BitVec w) (hw : 0 < w) (k : ℕ) :
    ∀ n, n < 2 ^ k → ofWord p (powWord p a k n) = ofWord p a ^ n := by
  induction k with
  | zero =>
    intro n hn
    obtain rfl : n = 0 := by simpa using hn
    simpa [powWord] using ofWord_one p hw
  | succ k ih =>
    intro n hn
    have hhalf := ih (n / 2) (by rw [pow_succ] at hn; omega)
    have hsq : ofWord p (mulWord p (powWord p a k (n / 2)) (powWord p a k (n / 2))) = ofWord p a ^ (2 * (n / 2)) := by
      rw [ofWord_mulWord, hhalf, two_mul, pow_add]
    by_cases hodd : n % 2 = 1
    · rw [powWord, if_pos hodd, ofWord_mulWord, hsq, ← pow_succ, show 2 * (n / 2) + 1 = n by omega]
    · rw [powWord, if_neg hodd, hsq, show 2 * (n / 2) = n by omega]

/-! ## Primitive moduli -/

theorem card_quotient (p : BitVec w) : Nat.card (AdjoinRoot (modulus p)) = 2 ^ w := by
  have hfin : Module.finrank (ZMod 2) (AdjoinRoot (modulus p)) = w := by
    rw [(AdjoinRoot.powerBasis' (monic_modulus p)).finrank, AdjoinRoot.powerBasis'_dim, natDegree_modulus]
  have : Module.Finite (ZMod 2) (AdjoinRoot (modulus p)) := (AdjoinRoot.powerBasis' (monic_modulus p)).finite
  rw [Module.natCard_eq_pow_finrank (K := ZMod 2), hfin, Nat.card_zmod]

/-- The modulus is primitive: its root has the largest order an element can have. -/
def Primitive (p : BitVec w) : Prop := orderOf (AdjoinRoot.root (modulus p)) = 2 ^ w - 1

variable {p : BitVec w}

theorem nontrivial_quotient (p : BitVec w) (hw : 0 < w) : Nontrivial (AdjoinRoot (modulus p)) := by
  refine ⟨⟨1, 0, ?_⟩⟩
  rw [← ofWord_one p hw, Ne, ofWord_eq_zero]
  intro h
  have := congrArg (fun a : BitVec w => a.getLsbD 0) h
  simp [hw] at this

/-- Every nonzero element is a power of a primitive root. -/
theorem Primitive.exists_pow (hp : Primitive p) (hw : 0 < w) {x : AdjoinRoot (modulus p)} (hx : x ≠ 0) :
    ∃ i < 2 ^ w - 1, AdjoinRoot.root (modulus p) ^ i = x := by
  have hN : 0 < 2 ^ w - 1 := by
    have := Nat.one_lt_two_pow hw.ne'
    omega
  have : Nontrivial (AdjoinRoot (modulus p)) := nontrivial_quotient p hw
  have : Finite (AdjoinRoot (modulus p)) := Nat.finite_of_card_ne_zero (by rw [card_quotient]; positivity)
  have hunit : IsUnit (AdjoinRoot.root (modulus p)) := IsUnit.of_pow_eq_one (hp ▸ pow_orderOf_eq_one _) hN.ne'
  let f : Fin (2 ^ w - 1) → {y : AdjoinRoot (modulus p) // y ≠ 0} := fun i =>
    ⟨AdjoinRoot.root (modulus p) ^ i.val, (hunit.pow _).ne_zero⟩
  have hlt : ∀ i : Fin (2 ^ w - 1), i.val ∈ Set.Iio (orderOf (AdjoinRoot.root (modulus p))) := by
    intro i
    rw [hp]
    exact i.isLt
  have hinj : Function.Injective f := by
    intro i j hij
    exact Fin.ext (pow_injOn_Iio_orderOf (hlt i) (hlt j) (Subtype.ext_iff.1 hij))
  have hcard : Nat.card {y : AdjoinRoot (modulus p) // y ≠ 0} ≤ Nat.card (Fin (2 ^ w - 1)) := by
    have hcompl := Set.ncard_compl ({0} : Set (AdjoinRoot (modulus p)))
    rw [Set.ncard_singleton, card_quotient] at hcompl
    rw [Nat.card_fin, ← hcompl]
    exact le_of_eq rfl
  obtain ⟨i, hi⟩ := (hinj.bijective_of_nat_card_le hcard).surjective ⟨x, hx⟩
  exact ⟨i, i.isLt, Subtype.ext_iff.1 hi⟩

theorem Primitive.irreducible (hp : Primitive p) (hw : 0 < w) : Irreducible (modulus p) := by
  have hN : 0 < 2 ^ w - 1 := by
    have := Nat.one_lt_two_pow hw.ne'
    omega
  have := nontrivial_quotient p hw
  have hunit : IsUnit (AdjoinRoot.root (modulus p)) := IsUnit.of_pow_eq_one (hp ▸ pow_orderOf_eq_one _) hN.ne'
  have hfield : IsField (AdjoinRoot (modulus p)) :=
    { exists_pair_ne := ⟨0, 1, zero_ne_one⟩
      mul_comm := mul_comm
      mul_inv_cancel := by
        intro x hx
        obtain ⟨i, -, rfl⟩ := hp.exists_pow hw hx
        exact (hunit.pow i).exists_right_inv }
  have hmax : (Ideal.span {modulus p}).IsMaximal := Ideal.Quotient.maximal_of_isField _ hfield
  exact ((Ideal.span_singleton_prime (monic_modulus p).ne_zero).1 hmax.isPrime).irreducible

end BinaryField
