import Mathlib.Algebra.CharP.Algebra
import Mathlib.Tactic.NormNum.Prime
import Tonepoet.Library.BinaryField

/-!
# `ctdb_rs::galois` (ctdb_rs/mod.rs:48-165)

The tables of GF(2^16) over the polynomial `0x1100B`, and the field they compute in. Words are `u16`
values, added by xor.
-/

namespace Ctdb

open BinaryField

def fieldSize : ℕ := 65536
/-- `MAX`. -/
def galoisMax : ℕ := fieldSize - 1
def primitivePoly : UInt32 := 0x1100B

/-! ## The field -/

/-- The polynomial without its leading term. -/
def lowPoly : BitVec 16 := 0x100B#16

theorem powWord_two : powWord lowPoly 2#16 16 65535 = 1#16 ∧
    ∀ q ∈ [3, 5, 17, 257], powWord lowPoly 2#16 16 (65535 / q) ≠ 1#16 := by decide +kernel

theorem ofWord_two : ofWord lowPoly 2#16 = AdjoinRoot.root (modulus lowPoly) := by
  have h : (2#16 : BitVec 16) = double lowPoly 1#16 := by decide
  rw [h, ofWord_double, ofWord_one lowPoly (by decide), mul_one]

theorem root_pow_eq_one_iff {n : ℕ} (hn : n < 2 ^ 16) :
    AdjoinRoot.root (modulus lowPoly) ^ n = 1 ↔ powWord lowPoly 2#16 16 n = 1#16 := by
  rw [← ofWord_two, ← ofWord_powWord lowPoly 2#16 (by decide) 16 n hn, ← ofWord_one lowPoly (by decide)]
  exact (ofWord_injective lowPoly).eq_iff

theorem prime_factors_galoisMax {q : ℕ} (hq : q.Prime) (hdvd : q ∣ 65535) : q ∈ [3, 5, 17, 257] := by
  have hfactors : 65535 = 3 * 5 * 17 * 257 := by norm_num
  have heq : ∀ r, Nat.Prime r → q ∣ r → q = r := fun r hr h => (Nat.prime_dvd_prime_iff_eq hq hr).1 h
  rw [hfactors, hq.dvd_mul, hq.dvd_mul, hq.dvd_mul] at hdvd
  rcases hdvd with ((h | h) | h) | h
  · simp [heq 3 (by norm_num) h]
  · simp [heq 5 (by norm_num) h]
  · simp [heq 17 (by norm_num) h]
  · simp [heq 257 (by norm_num) h]

/-- **The polynomial is primitive.** -/
theorem primitive_lowPoly : Primitive lowPoly := by
  refine orderOf_eq_of_pow_and_pow_div_prime (by norm_num) ?_ ?_
  · exact (root_pow_eq_one_iff (by norm_num)).2 powWord_two.1
  · intro q hq hdvd h
    have hlt : (2 ^ 16 - 1) / q < 2 ^ 16 := lt_of_le_of_lt (Nat.div_le_self _ _) (by norm_num)
    exact powWord_two.2 q (prime_factors_galoisMax hq hdvd) ((root_pow_eq_one_iff hlt).1 h)

instance : Fact (Irreducible (modulus lowPoly)) := ⟨primitive_lowPoly.irreducible (by decide)⟩

/-- GF(2^16). -/
def GF : Type := AdjoinRoot (modulus lowPoly)

noncomputable instance : Field GF := inferInstanceAs (Field (AdjoinRoot (modulus lowPoly)))

instance : CharP GF 2 := charP_of_injective_ringHom (AdjoinRoot.of (modulus lowPoly)).injective 2

/-- The element a word stands for. -/
noncomputable def toGF (a : UInt16) : GF := ofWord lowPoly a.toBitVec

noncomputable def alpha : GF := AdjoinRoot.root (modulus lowPoly)

@[simp] theorem toGF_zero : toGF 0 = 0 := ofWord_zero lowPoly

@[simp] theorem toGF_one : toGF 1 = 1 := ofWord_one lowPoly (by decide)

theorem toGF_xor (a b : UInt16) : toGF (a ^^^ b) = toGF a + toGF b := by
  rw [toGF, UInt16.toBitVec_xor, ofWord_xor]
  rfl

theorem toGF_injective : Function.Injective toGF := by
  intro a b h
  exact UInt16.toBitVec_inj.1 (ofWord_injective lowPoly h)

@[simp] theorem toGF_eq_zero {a : UInt16} : toGF a = 0 ↔ a = 0 := by
  rw [← toGF_zero, toGF_injective.eq_iff]

theorem alpha_pow_galoisMax : alpha ^ galoisMax = 1 := by
  have h : galoisMax = orderOf alpha := primitive_lowPoly.symm
  rw [h, pow_orderOf_eq_one]

theorem alpha_ne_zero : alpha ≠ 0 := by
  intro h
  have := alpha_pow_galoisMax
  rw [h, zero_pow (by decide)] at this
  exact zero_ne_one this

theorem alpha_pow_ne_zero (n : ℕ) : alpha ^ n ≠ 0 := pow_ne_zero n alpha_ne_zero

theorem alpha_pow_mod (n : ℕ) : alpha ^ (n % galoisMax) = alpha ^ n := by
  conv_rhs => rw [← Nat.div_add_mod n galoisMax, pow_add, pow_mul, alpha_pow_galoisMax, one_pow, one_mul]

theorem alpha_pow_injOn {i j : ℕ} (hi : i < galoisMax) (hj : j < galoisMax) (h : alpha ^ i = alpha ^ j) : i = j := by
  have horder : orderOf alpha = galoisMax := primitive_lowPoly
  exact pow_injOn_Iio_orderOf (by rw [horder]; exact hi) (by rw [horder]; exact hj) h

/-! ## The tables -/

/-- The word of the `i`-th power of the generator. -/
def power (i : ℕ) : UInt16 := ⟨(double lowPoly)^[i] 1#16⟩

theorem power_succ (i : ℕ) : power (i + 1) = ⟨double lowPoly (power i).toBitVec⟩ := by
  rw [power, Function.iterate_succ_apply']
  rfl

theorem toGF_power (i : ℕ) : toGF (power i) = alpha ^ i := by
  induction i with
  | zero => exact toGF_one
  | succ i ih =>
    rw [power_succ, pow_succ', ← ih]
    exact ofWord_double lowPoly _

theorem power_injOn {i j : ℕ} (hi : i < galoisMax) (hj : j < galoisMax) (h : power i = power j) : i = j := by
  apply alpha_pow_injOn hi hj
  rw [← toGF_power, ← toGF_power, h]

theorem exists_power {a : UInt16} (ha : a ≠ 0) : ∃ i < galoisMax, power i = a := by
  obtain ⟨i, hi, h⟩ := primitive_lowPoly.exists_pow (by decide) (toGF_eq_zero.not.2 ha)
  refine ⟨i, hi, toGF_injective ?_⟩
  rw [toGF_power]
  exact h

/-- The tables, with what `generate_tables` puts into them. -/
structure Galois16 where
  expTbl : Vector UInt16 (galoisMax * 2)
  logTbl : Vector UInt16 (galoisMax + 1)
  exp_eq : ∀ i (h : i < galoisMax), expTbl[i] = power i ∧ expTbl[galoisMax + i] = power i
  log_lt : ∀ i (h : i < galoisMax + 1), logTbl[i].toNat < galoisMax
  log_power : ∀ i < galoisMax, ∀ h : (power i).toNat < galoisMax + 1, logTbl[(power i).toNat].toNat = i

/-- `d <<= 1` and the reduction. -/
def nextPower (d : UInt32) : UInt32 :=
  let d := d <<< 1
  if (d >>> 16) &&& 1 ≠ 0 then (d ^^^ primitivePoly) &&& 0xFFFF else d

structure Tables where
  expTbl : Vector UInt16 (galoisMax * 2)
  logTbl : Vector UInt16 (galoisMax + 1)
  d : UInt32

/-- The body of the loop over `i`. -/
def Tables.step (t : Tables) (i : ℕ) : Tables where
  expTbl := (t.expTbl.setIfInBounds i t.d.toUInt16).setIfInBounds (galoisMax + i) t.d.toUInt16
  logTbl := t.logTbl.setIfInBounds t.d.toNat i.toUInt16
  d := nextPower t.d

def Tables.init : Tables where
  expTbl := Vector.replicate (galoisMax * 2) 0
  logTbl := Vector.replicate (galoisMax + 1) 0
  d := 1

/-- `generate_tables` (mod.rs:143). -/
def generateTables : Tables := (List.range galoisMax).foldl Tables.step Tables.init

/-- The tables after `n` rounds. -/
structure Tables.Inv (t : Tables) (n : ℕ) : Prop where
  d_eq : t.d = (power n).toUInt32
  exp_eq : ∀ i (_ : i < n) (_ : i < galoisMax), t.expTbl[i] = power i ∧ t.expTbl[galoisMax + i] = power i
  log_lt : ∀ i (_ : i < galoisMax + 1), t.logTbl[i].toNat < galoisMax
  log_power : ∀ i < n, ∀ _ : (power i).toNat < galoisMax + 1, t.logTbl[(power i).toNat].toNat = i

theorem and_mask (x : BitVec 32) : x &&& 0xFFFF#32 = (x.setWidth 16).setWidth 32 := by
  have hmask : (0xFFFF#32).toNat = 2 ^ 16 - 1 := by decide
  apply BitVec.eq_of_toNat_eq
  rw [BitVec.toNat_and, hmask, Nat.and_two_pow_sub_one_eq_mod]
  simp
  omega

/-- The 32-bit shift and reduction is the doubling of the 16-bit word. -/
theorem nextPower_toUInt32 (a : UInt16) : nextPower a.toUInt32 = (⟨double lowPoly a.toBitVec⟩ : UInt16).toUInt32 := by
  obtain ⟨a⟩ := a
  have hmsb : a.msb = decide (2 ^ 15 ≤ a.toNat) := by simp [BitVec.msb_eq_decide]
  have hcarry : ((a.setWidth 32 <<< 1) >>> 16) &&& 1#32 ≠ 0#32 ↔ a.msb = true := by
    rw [hmsb, decide_eq_true_iff, ← BitVec.toNat_inj.ne]
    simp [Nat.shiftLeft_eq, Nat.shiftRight_eq_div_pow]
    omega
  have hcond : ((⟨a⟩ : UInt16).toUInt32 <<< 1 >>> 16) &&& 1 ≠ 0 ↔ a.msb = true := by
    rw [← hcarry, ← UInt32.toBitVec_inj.ne]
    rfl
  apply UInt32.toBitVec_inj.1
  by_cases hm : a.msb
  · rw [nextPower, if_pos (hcond.2 hm), double, if_pos hm]
    change (a.setWidth 32 <<< 1 ^^^ 0x1100B#32) &&& 0xFFFF#32 = (a <<< 1 ^^^ lowPoly).setWidth 32
    rw [and_mask, BitVec.setWidth_xor, lowPoly]
    congr 2
    apply BitVec.eq_of_toNat_eq
    simp
  · rw [nextPower, if_neg (mt hcond.1 hm), double, if_neg hm]
    change a.setWidth 32 <<< 1 = (a <<< 1).setWidth 32
    rw [hmsb, decide_eq_true_iff] at hm
    apply BitVec.eq_of_toNat_eq
    simp [Nat.shiftLeft_eq]
    omega

theorem Tables.inv_init : Tables.init.Inv 0 where
  d_eq := by decide
  exp_eq := fun i hi => absurd hi (Nat.not_lt_zero i)
  log_lt := fun i hi => by simp [Tables.init, galoisMax, fieldSize]
  log_power := fun i hi => absurd hi (Nat.not_lt_zero i)

theorem Tables.Inv.step {t : Tables} {n : ℕ} (h : t.Inv n) (hn : n < galoisMax) : (t.step n).Inv (n + 1) := by
  have hword : t.d.toUInt16 = power n := by rw [h.d_eq, UInt16.toUInt16_toUInt32]
  have hnat : t.d.toNat = (power n).toNat := by rw [h.d_eq, UInt16.toNat_toUInt32]
  have hlog : n.toUInt16.toNat = n := UInt16.toNat_ofNat_of_lt (by rw [galoisMax, fieldSize] at hn; exact hn.trans (by decide))
  refine ⟨?_, ?_, ?_, ?_⟩
  · rw [Tables.step, h.d_eq, nextPower_toUInt32, power_succ]
  · intro i hi hmax
    simp only [Tables.step, Vector.getElem_setIfInBounds, hword]
    by_cases hin : i = n
    · subst hin
      simp
    · have := h.exp_eq i (by omega) hmax
      rw [if_neg (by omega), if_neg (by omega), if_neg (by omega), if_neg (by omega)]
      exact this
  · intro i hi
    simp only [Tables.step, Vector.getElem_setIfInBounds]
    split
    · rw [hlog]
      exact hn
    · exact h.log_lt i hi
  · intro i hi hlt
    simp only [Tables.step, Vector.getElem_setIfInBounds, hnat]
    by_cases hin : i = n
    · subst hin
      rw [if_pos rfl, hlog]
    · have hne : (power n).toNat ≠ (power i).toNat := by
        intro heq
        exact hin (power_injOn hn (by omega) (UInt16.toNat_inj.1 heq)).symm
      rw [if_neg hne]
      exact h.log_power i (by omega) hlt

theorem Tables.inv_generate (n : ℕ) (hn : n ≤ galoisMax) : ((List.range n).foldl Tables.step Tables.init).Inv n := by
  induction n with
  | zero => exact Tables.inv_init
  | succ n ih =>
    rw [List.range_succ, List.foldl_append]
    exact (ih (by omega)).step (by omega)

namespace Galois16

/-- `Galois16::new`. -/
def new : Galois16 where
  expTbl := generateTables.expTbl
  logTbl := generateTables.logTbl
  exp_eq := fun i hi => (Tables.inv_generate galoisMax le_rfl).exp_eq i hi hi
  log_lt := (Tables.inv_generate galoisMax le_rfl).log_lt
  log_power := (Tables.inv_generate galoisMax le_rfl).log_power

variable (gf : Galois16)

theorem toNat_lt_fieldSize (a : UInt16) : a.toNat < galoisMax + 1 := a.toNat_lt

/-- `self.log_tbl[a as usize] as usize`. -/
def logEntry (a : UInt16) : ℕ :=
  have := toNat_lt_fieldSize a
  gf.logTbl[a.toNat].toNat

theorem logEntry_lt (a : UInt16) : gf.logEntry a < galoisMax := gf.log_lt _ (toNat_lt_fieldSize a)

theorem logEntry_power {i : ℕ} (hi : i < galoisMax) : gf.logEntry (power i) = i := gf.log_power i hi (toNat_lt_fieldSize _)

theorem mod_galoisMax_lt (n : ℕ) : n % galoisMax < galoisMax := Nat.mod_lt n (by decide)

def alphaPow (n : ℕ) : UInt16 :=
  have : n % galoisMax < galoisMax * 2 := by have := mod_galoisMax_lt n; omega
  gf.expTbl[n % galoisMax]

def log (a : UInt16) : Option ℕ := if a = 0 then none else some (gf.logEntry a)

def mul (a b : UInt16) : UInt16 :=
  if a = 0 ∨ b = 0 then 0
  else
    have : gf.logEntry a + gf.logEntry b < galoisMax * 2 := by
      have := gf.logEntry_lt a
      have := gf.logEntry_lt b
      omega
    gf.expTbl[gf.logEntry a + gf.logEntry b]

/-- `div`; the assertion on the divisor is its last argument. -/
def div (a b : UInt16) (_hb : b ≠ 0) : UInt16 :=
  if a = 0 then 0
  else
    have : gf.logEntry a + galoisMax - gf.logEntry b < galoisMax * 2 := by
      have := gf.logEntry_lt a
      omega
    gf.expTbl[gf.logEntry a + galoisMax - gf.logEntry b]

def mulExp (a : UInt16) (n : ℕ) : UInt16 :=
  if a = 0 then 0
  else
    have : gf.logEntry a + n % galoisMax < galoisMax * 2 := by
      have := gf.logEntry_lt a
      have := mod_galoisMax_lt n
      omega
    gf.expTbl[gf.logEntry a + n % galoisMax]

/-! ## What the operations compute -/

-- From here on words meet field elements through the lemmas only.
attribute [irreducible] toGF alpha

theorem toGF_expTbl (k : ℕ) (hk : k < galoisMax * 2) : toGF gf.expTbl[k] = alpha ^ k := by
  by_cases hlow : k < galoisMax
  · rw [(gf.exp_eq k hlow).1, toGF_power]
  · obtain ⟨i, rfl⟩ := Nat.exists_eq_add_of_le (Nat.le_of_not_lt hlow)
    rw [(gf.exp_eq i (by omega)).2, toGF_power, pow_add, alpha_pow_galoisMax, one_mul]

theorem alpha_pow_logEntry {a : UInt16} (ha : a ≠ 0) : alpha ^ gf.logEntry a = toGF a := by
  obtain ⟨i, hi, rfl⟩ := exists_power ha
  rw [gf.logEntry_power hi, toGF_power]

@[simp] theorem toGF_alphaPow (n : ℕ) : toGF (gf.alphaPow n) = alpha ^ n := by
  rw [alphaPow, toGF_expTbl, alpha_pow_mod]

theorem alphaPow_ne_zero (n : ℕ) : gf.alphaPow n ≠ 0 := by
  intro h
  apply alpha_pow_ne_zero n
  rw [← toGF_alphaPow gf, h, toGF_zero]

@[simp] theorem toGF_mul (a b : UInt16) : toGF (gf.mul a b) = toGF a * toGF b := by
  by_cases ha : a = 0
  · simp [mul, ha]
  by_cases hb : b = 0
  · simp [mul, hb]
  rw [mul, if_neg (by simp [ha, hb]), toGF_expTbl, pow_add, gf.alpha_pow_logEntry ha, gf.alpha_pow_logEntry hb]

@[simp] theorem toGF_div (a b : UInt16) (hb : b ≠ 0) : toGF (gf.div a b hb) = toGF a / toGF b := by
  by_cases ha : a = 0
  · simp [div, ha]
  have hlog := gf.logEntry_lt b
  rw [div, if_neg ha, toGF_expTbl, eq_div_iff (toGF_eq_zero.not.2 hb), ← gf.alpha_pow_logEntry hb, ← pow_add,
    show gf.logEntry a + galoisMax - gf.logEntry b + gf.logEntry b = gf.logEntry a + galoisMax by omega, pow_add,
    alpha_pow_galoisMax, mul_one, gf.alpha_pow_logEntry ha]

@[simp] theorem toGF_mulExp (a : UInt16) (n : ℕ) : toGF (gf.mulExp a n) = toGF a * alpha ^ n := by
  by_cases ha : a = 0
  · simp [mulExp, ha]
  rw [mulExp, if_neg ha, toGF_expTbl, pow_add, gf.alpha_pow_logEntry ha, alpha_pow_mod]

/-- A nonzero word has a logarithm. -/
theorem log_eq_some {a : UInt16} (ha : a ≠ 0) : ∃ l < galoisMax, gf.log a = some l ∧ alpha ^ l = toGF a :=
  ⟨gf.logEntry a, gf.logEntry_lt a, if_neg ha, gf.alpha_pow_logEntry ha⟩

end Galois16

end Ctdb
