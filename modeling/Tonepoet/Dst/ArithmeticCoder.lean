import Tonepoet.Dst.BitWriter
import Tonepoet.Library.IntervalCoder

/-!
# The arithmetic coder (dst/encoder.rs:1677, dst/decoder.rs:1029)

Both sides are instances of `IntervalCoder` at twelve bits. The encoder keeps the low end of the
interval in a 13-bit register `c`, a list of finished bits and a pending bit followed by ones, so that
a carry can still ripple; `Digits` says what number those registers denote, `shiftOut_digits` that one
shift keeps it, and `encodeBit_emits` that one coded bit is one `IntervalCoder.step`. On the decoder's
side `get_reads` says that `ArithmeticCoder::get` is `IntervalCoder.Decoder.get`.
-/

namespace Dst

open Rust BitString BitReader IntervalCoder

def arithmeticBits : ℕ := 12
def arithmeticOne : ℕ := 1 <<< arithmeticBits
def arithmeticHalf : ℕ := arithmeticOne >>> 1

/-- `q`: the part of the width `a` that a zero of probability `p / 128` takes. -/
def splitWidth (p a : ℕ) : ℕ := ((a >>> 8) ||| ((a >>> 7) &&& 1)) * p

/-! ## `propagate_carry` (encoder.rs:1786) -/

/-- `for idx in (0..n).rev()`: the first zero from the end becomes a one; the ones behind it are cleared. -/
def propagateCarryFrom : ℕ → List Bool → List Bool
  | 0, bits => true :: bits
  | idx + 1, bits =>
    if bits.getD idx false = false then bits.set idx true
    else propagateCarryFrom idx (bits.set idx false)

def propagateCarry (bits : List Bool) : List Bool := propagateCarryFrom bits.length bits

/-- With room for the carry it adds one to the number and keeps the length: `bits.insert(0, 1)` is not reached. -/
theorem propagateCarryFrom_spec (xs : List Bool) : ∀ ys : List Bool, value xs + 1 < 2 ^ xs.length →
    ∃ zs, propagateCarryFrom xs.length (xs ++ ys) = zs ++ ys ∧ zs.length = xs.length ∧ value zs = value xs + 1 := by
  induction xs using List.reverseRecOn with
  | nil => intro ys h; simp at h
  | append_singleton xs b ih =>
    intro ys h
    have hget : (xs ++ [b] ++ ys).getD xs.length false = b := by simp [List.getD_eq_getElem?_getD]
    have hset : ∀ c, (xs ++ [b] ++ ys).set xs.length c = xs ++ ([c] ++ ys) := by
      intro c
      rw [List.append_assoc, List.set_append_right _ _ le_rfl]
      simp
    rw [List.length_append, List.length_singleton, propagateCarryFrom, hget]
    cases b
    · refine ⟨xs ++ [true], by rw [if_pos rfl, hset, List.append_assoc], by simp, ?_⟩
      simp [value_concat]
    · rw [if_neg (by decide), hset]
      rw [List.length_append, List.length_singleton, value_concat, pow_succ] at h
      obtain ⟨zs, hz, hl, hv⟩ := ih ([false] ++ ys) (by simp at h; omega)
      refine ⟨zs ++ [false], by rw [hz, List.append_assoc], by simp [hl], ?_⟩
      rw [value_concat, value_concat, hv]
      simp
      ring

theorem propagateCarry_spec {xs : List Bool} (h : value xs + 1 < 2 ^ xs.length) :
    (propagateCarry xs).length = xs.length ∧ value (propagateCarry xs) = value xs + 1 := by
  obtain ⟨zs, hz, hl, hv⟩ := propagateCarryFrom_spec xs [] h
  simp only [List.append_nil] at hz
  rw [propagateCarry, hz]
  exact ⟨hl, hv⟩

/-! ## `ArithmeticBitEncoder` (encoder.rs:1677) -/

structure ArithmeticBitEncoder where
  a : ℕ
  c : ℕ
  bits : List Bool
  pendingBit : Bool
  pendingOnes : ℕ
  hasPending : Bool

namespace ArithmeticBitEncoder

def new : ArithmeticBitEncoder := ⟨arithmeticOne - 1, 0, [], false, 0, false⟩

/-- `flush_pending` (encoder.rs:1750). -/
def flushPending (e : ArithmeticBitEncoder) : ArithmeticBitEncoder :=
  if !e.hasPending then e
  else { e with
    bits := e.bits ++ [e.pendingBit] ++ List.replicate e.pendingOnes true
    hasPending := false
    pendingOnes := 0 }

/-- `emit_bit` (encoder.rs:1735). -/
def emitBit (e : ArithmeticBitEncoder) (bit : Bool) : ArithmeticBitEncoder :=
  if !e.hasPending then { e with pendingBit := bit, pendingOnes := 0, hasPending := true }
  else if bit then { e with pendingOnes := e.pendingOnes + 1 }
  else { e.flushPending with pendingBit := false, pendingOnes := 0, hasPending := true }

/-- `apply_carry` (encoder.rs:1762). -/
def applyCarry (e : ArithmeticBitEncoder) : ArithmeticBitEncoder :=
  if !e.hasPending then { e with bits := propagateCarry e.bits }
  else
    let ones := e.pendingOnes
    let bits :=
      if e.pendingBit = false then e.bits ++ [true] ++ List.replicate ones false
      else propagateCarry e.bits ++ [false] ++ List.replicate ones false
    { e with bits := bits, hasPending := false, pendingOnes := 0 }

/-- `shift_out` (encoder.rs:1725). -/
def shiftOut (e : ArithmeticBitEncoder) : ArithmeticBitEncoder :=
  let e := if arithmeticOne ≤ e.c then { e with c := e.c - arithmeticOne }.applyCarry else e
  let bit := (e.c >>> (arithmeticBits - 1)) &&& 1
  let e := e.emitBit (bit == 1)
  { e with c := (e.c <<< 1) &&& (arithmeticOne - 1) }

/-- `while self.a < ARITHMETIC_HALF { shift_out(); a <<= 1 }`. Eleven doublings lift any positive width
    to the half, so the fuel is never used up (`shiftWhile_emits`). -/
def shiftWhile : ℕ → ArithmeticBitEncoder → ArithmeticBitEncoder
  | 0, e => e
  | fuel + 1, e =>
    if e.a < arithmeticHalf then shiftWhile fuel { e.shiftOut with a := e.a <<< 1 } else e

/-- `encode_bit` (encoder.rs:1698). -/
def encodeBit (e : ArithmeticBitEncoder) (bit : Bool) (probabilityZero : ℕ) : ArithmeticBitEncoder :=
  let q := splitWidth probabilityZero e.a
  let aMinusQ := e.a - q
  let e := if bit = false then { e with c := e.c + aMinusQ, a := q } else { e with a := aMinusQ }
  shiftWhile arithmeticBits e

/-- `finish` (encoder.rs:1717). -/
def finish (e : ArithmeticBitEncoder) : List Bool := (shiftOut^[arithmeticBits] e).flushPending.bits

/-! ### What the registers denote -/

/-- The bits emitted so far, the pending ones included. -/
def emitted (e : ArithmeticBitEncoder) : List Bool :=
  if e.hasPending then e.bits ++ [e.pendingBit] ++ List.replicate e.pendingOnes true else e.bits

/-- The registers denote the number `low`, of which `n` bits are emitted. -/
structure Digits (e : ArithmeticBitEncoder) (low n : ℕ) : Prop where
  length_eq : e.emitted.length = n
  value_eq : 4096 * value e.emitted + e.c = low

@[simp] theorem emitted_c (e : ArithmeticBitEncoder) (c : ℕ) : { e with c := c }.emitted = e.emitted := rfl

@[simp] theorem emitted_a (e : ArithmeticBitEncoder) (a : ℕ) : { e with a := a }.emitted = e.emitted := rfl

theorem flushPending_bits (e : ArithmeticBitEncoder) : e.flushPending.bits = e.emitted := by
  unfold flushPending emitted
  cases e.hasPending <;> simp

theorem emitBit_emitted (e : ArithmeticBitEncoder) (bit : Bool) : (e.emitBit bit).emitted = e.emitted ++ [bit] := by
  unfold emitBit
  cases hp : e.hasPending
  · simp [emitted, hp]
  · cases bit
    · simp only [Bool.not_true, Bool.false_eq_true, if_false]
      rw [emitted]
      simp only [if_true, List.replicate_zero, List.append_nil, flushPending_bits]
    · simp [emitted, hp, List.replicate_succ']

theorem emitBit_c (e : ArithmeticBitEncoder) (bit : Bool) : (e.emitBit bit).c = e.c := by
  unfold emitBit flushPending
  split
  · rfl
  · cases e.hasPending <;> cases bit <;> rfl

theorem applyCarry_c (e : ArithmeticBitEncoder) : e.applyCarry.c = e.c := by
  unfold applyCarry
  split <;> rfl

theorem value_ones (n : ℕ) : value (List.replicate n true) + 1 = 2 ^ n := by
  induction n with
  | zero => rfl
  | succ n ih =>
    rw [List.replicate_succ, value_cons, List.length_replicate, pow_succ]
    simp
    omega

theorem value_run (xs : List Bool) (b c : Bool) (n : ℕ) :
    value (xs ++ [b] ++ List.replicate n c) = (2 * value xs + b.toNat) * 2 ^ n + value (List.replicate n c) := by
  rw [value_append, value_concat, List.length_replicate]

/-- A carry that has room in the emitted bits and goes past the pending run has room in the finished bits. -/
theorem room_finished {e : ArithmeticBitEncoder} (h : value e.emitted + 1 < 2 ^ e.emitted.length)
    (hpast : e.hasPending = false ∨ e.pendingBit = true) : value e.bits + 1 < 2 ^ e.bits.length := by
  unfold emitted at h
  cases hp : e.hasPending
  · simpa [hp] using h
  · have hb : e.pendingBit = true := hpast.resolve_left (by simp [hp])
    have hones := value_ones e.pendingOnes
    have hpos := Nat.two_pow_pos e.pendingOnes
    simp only [hp, if_true, value_run, hb, Bool.toNat_true, List.length_append, List.length_singleton, List.length_replicate,
      pow_add] at h
    by_contra hge
    have hmul : 2 ^ e.bits.length * (2 * 2 ^ e.pendingOnes) ≤ (value e.bits + 1) * (2 * 2 ^ e.pendingOnes) :=
      Nat.mul_le_mul_right _ (by omega)
    nlinarith

/-- The carry adds one to the emitted number, as long as it has room. -/
theorem applyCarry_emitted {e : ArithmeticBitEncoder} (h : value e.emitted + 1 < 2 ^ e.emitted.length) :
    e.applyCarry.emitted.length = e.emitted.length ∧ value e.applyCarry.emitted = value e.emitted + 1 := by
  have hroom := room_finished h
  unfold emitted at h ⊢
  unfold applyCarry
  cases hp : e.hasPending
  · simp only [hp, Bool.false_eq_true, if_false] at h
    simpa [hp] using propagateCarry_spec h
  · have hones := value_ones e.pendingOnes
    have hpos := Nat.two_pow_pos e.pendingOnes
    simp only [hp, if_true, value_run] at h
    cases hb : e.pendingBit
    · refine ⟨by simp, ?_⟩
      simp only [Bool.not_true, Bool.false_eq_true, if_false, if_true, value_run, value_replicate_false,
        Bool.toNat_true, Bool.toNat_false, Nat.add_mul]
      omega
    · -- the pending bit and its ones clear, the carry goes on into the finished bits
      obtain ⟨hl, hv⟩ := propagateCarry_spec (hroom (.inr hb))
      refine ⟨by simp [hl], ?_⟩
      simp only [Bool.not_true, Bool.false_eq_true, if_false, if_true, value_run, value_replicate_false, hv,
        Bool.toNat_true, Bool.toNat_false, Bool.true_eq_false, Nat.add_mul, Nat.mul_add]
      omega

/-- Where the register has run over, the emitted bits have room for the carry. -/
theorem Digits.room {e : ArithmeticBitEncoder} {low n : ℕ} (h : Digits e low n) (hlow : low < 2 ^ (12 + n))
    (hc : arithmeticOne ≤ e.c) : value e.emitted + 1 < 2 ^ e.emitted.length := by
  have hone : arithmeticOne = 4096 := rfl
  have hval := h.value_eq
  rw [h.length_eq]
  rw [pow_add] at hlow
  omega

/-- The carry, if there is one, is in the emitted bits before the next bit goes out. -/
theorem carry_digits {e : ArithmeticBitEncoder} {low n : ℕ} (h : Digits e low n) (hc : e.c < 8192)
    (hlow : low < 2 ^ (12 + n)) :
    Digits (if arithmeticOne ≤ e.c then { e with c := e.c - arithmeticOne }.applyCarry else e) low n ∧
      (if arithmeticOne ≤ e.c then { e with c := e.c - arithmeticOne }.applyCarry else e).c < 4096 := by
  have hone : arithmeticOne = 4096 := rfl
  split
  · next hcarry =>
    have hval := h.value_eq
    have hroom := h.room hlow hcarry
    rw [hone] at hcarry ⊢
    obtain ⟨k, hk⟩ : ∃ k, e.c - 4096 = k := ⟨_, rfl⟩
    rw [hk]
    obtain ⟨hl, hv⟩ := applyCarry_emitted (e := { e with c := k }) hroom
    simp only [emitted_c] at hl hv
    refine ⟨⟨hl.trans h.length_eq, ?_⟩, ?_⟩
    · rw [hv, applyCarry_c]
      dsimp only
      omega
    · rw [applyCarry_c]
      dsimp only
      omega
  · exact ⟨h, by omega⟩

/-- **One shift.** The emitted bits grow by one and denote twice the number. -/
theorem shiftOut_digits {e : ArithmeticBitEncoder} {low n : ℕ} (h : Digits e low n) (hc : e.c < 8192)
    (hlow : low < 2 ^ (12 + n)) : Digits e.shiftOut (low * 2) (n + 1) ∧ e.shiftOut.c < 4096 := by
  obtain ⟨e', he', hd, hc'⟩ : ∃ e', (if arithmeticOne ≤ e.c then { e with c := e.c - arithmeticOne }.applyCarry else e) = e' ∧
      Digits e' low n ∧ e'.c < 4096 := ⟨_, rfl, carry_digits h hc hlow⟩
  have hbit : e'.c >>> (arithmeticBits - 1) &&& 1 = e'.c / 2048 := by
    rw [Nat.and_one_is_mod, Nat.shiftRight_eq_div_pow]
    exact Nat.mod_eq_of_lt (by simp only [arithmeticBits]; omega)
  have hcsh : e'.c <<< 1 &&& (arithmeticOne - 1) = e'.c * 2 % 4096 := by
    rw [Nat.shiftLeft_eq]
    exact Nat.and_two_pow_sub_one_eq_mod (e'.c * 2) 12
  have hval := hd.value_eq
  have hlen := hd.length_eq
  simp only [shiftOut, he', hbit, emitBit_c, hcsh]
  refine ⟨⟨?_, ?_⟩, Nat.mod_lt _ (by omega)⟩
  · rw [emitted_c, emitBit_emitted, List.length_append, hlen, List.length_singleton]
  · have hnum : (e'.c / 2048 == 1).toNat = e'.c / 2048 := by
      by_cases h1 : e'.c / 2048 = 1
      · simp [h1]
      · have h0 : e'.c / 2048 = 0 := by omega
        simp [h0]
    rw [emitted_c, emitBit_emitted, value_concat, hnum]
    dsimp only
    omega

/-! ### The encoder is the interval coder -/

/-- The encoder's registers hold the abstract interval. -/
structure Emits (e : ArithmeticBitEncoder) (s : State) : Prop where
  width : e.a = s.width
  digits : Digits e s.low s.shifts
  room : e.c + e.a < 8192

theorem new_emits : Emits new (start 12) := ⟨rfl, ⟨rfl, rfl⟩, by decide⟩

theorem renorm_double {a : ℕ} (h0 : 0 < a) (h : a < 2048) : renorm 12 a = renorm 12 (a * 2) + 1 := by
  have hlog : Nat.log 2 (a * 2) = Nat.log 2 a + 1 := Nat.log_mul_base (by omega) h0.ne'
  have hlt : Nat.log 2 a < 11 := Nat.log_lt_of_lt_pow h0.ne' h
  unfold renorm
  omega

theorem renorm_of_ge {a : ℕ} (h : 2048 ≤ a) : renorm 12 a = 0 := by
  have : 11 ≤ Nat.log 2 a := Nat.le_log_of_pow_le (by omega) h
  unfold renorm
  omega

/-- One round of the loop. -/
theorem shift_emits {e : ArithmeticBitEncoder} {s : State} (h : Emits e s) (ha : e.a < 2048)
    (hlow : s.low + s.width ≤ 2 ^ (12 + s.shifts)) (h0 : 0 < s.width) :
    Emits { e.shiftOut with a := e.a <<< 1 } (s.shift 1) ∧
      (s.shift 1).low + (s.shift 1).width ≤ 2 ^ (12 + (s.shift 1).shifts) := by
  have hw := h.width
  have hroom := h.room
  obtain ⟨hd, hc⟩ := shiftOut_digits h.digits (by omega) (by omega)
  refine ⟨⟨by simp [State.shift, hw, Nat.shiftLeft_eq], ⟨hd.length_eq, ?_⟩, ?_⟩, ?_⟩
  · rw [emitted_a, hd.value_eq, State.shift, pow_one]
  · simp only [Nat.shiftLeft_eq]
    omega
  · simp only [State.shift, ← Nat.add_assoc, pow_succ]
    omega

theorem shift_renorm {s : State} (h0 : 0 < s.width) (h : s.width < 2048) :
    (s.shift 1).shift (renorm 12 (s.shift 1).width) = s.shift (renorm 12 s.width) := by
  have hwid : (s.shift 1).width = s.width * 2 := by simp [State.shift]
  rw [hwid, renorm_double h0 h]
  simp only [State.shift, pow_succ, State.mk.injEq]
  exact ⟨by ring, by ring, by ring⟩

/-- The loop shifts until the width is normal, and no longer. -/
theorem shiftWhile_emits : ∀ (fuel : ℕ) {e : ArithmeticBitEncoder} {s : State}, Emits e s → 0 < s.width →
    renorm 12 s.width < fuel → s.low + s.width ≤ 2 ^ (12 + s.shifts) →
    Emits (shiftWhile fuel e) (s.shift (renorm 12 s.width))
  | 0, _, _, _, _, hf, _ => by omega
  | fuel + 1, e, s, h, h0, hf, hlow => by
    have hhalf : arithmeticHalf = 2048 := rfl
    have hw := h.width
    unfold shiftWhile
    rw [hhalf]
    by_cases ha : e.a < 2048
    · rw [if_pos ha]
      obtain ⟨hstep, hlow'⟩ := shift_emits h ha hlow h0
      have hr := renorm_double h0 (by omega)
      have hwid : (s.shift 1).width = s.width * 2 := by simp [State.shift]
      have key := shiftWhile_emits fuel hstep (by omega) (by rw [hwid]; omega) hlow'
      rwa [shift_renorm h0 (by omega)] at key
    · rw [if_neg ha, renorm_of_ge (by omega)]
      simpa [State.shift] using h

/-- The symbol an `(encode_bit)` call codes. -/
def symbol (bit : Bool) (p : ℕ) : Symbol := ⟨bit, splitWidth p⟩

theorem symbol_fits (bit : Bool) {p : ℕ} (h1 : 1 ≤ p) (h2 : p ≤ 128) : (symbol bit p).Fits 12 := by
  rintro a ⟨hlo, hhi⟩
  have hk1 : a >>> 8 ||| a >>> 7 &&& 1 < 2 ^ 4 := by
    apply Nat.or_lt_two_pow
    · rw [Nat.shiftRight_eq_div_pow]
      omega
    · exact lt_of_le_of_lt Nat.and_le_right (by decide)
  have hk0 : a >>> 8 ≤ a >>> 8 ||| a >>> 7 &&& 1 := Nat.left_le_or
  have h8 : 8 ≤ a >>> 8 := by rw [Nat.shiftRight_eq_div_pow]; omega
  simp only [symbol, splitWidth]
  have hsmall : (a >>> 8 ||| a >>> 7 &&& 1) * p ≤ 15 * 128 := Nat.mul_le_mul (by omega) h2
  have hpos : 0 < (a >>> 8 ||| a >>> 7 &&& 1) * p := Nat.mul_pos (by omega) h1
  omega

/-- The narrowing of `encode_bit`, before its loop. -/
def narrowed (e : ArithmeticBitEncoder) (bit : Bool) (p : ℕ) : ArithmeticBitEncoder :=
  if bit = false then { e with c := e.c + (e.a - splitWidth p e.a), a := splitWidth p e.a }
  else { e with a := e.a - splitWidth p e.a }

theorem narrow_emits {e : ArithmeticBitEncoder} {s : State} (h : Emits e s) (hs : Normal 12 s.width)
    (hlow : s.low + s.width ≤ 2 ^ (12 + s.shifts)) {b : Bool} {p : ℕ} (h1 : 1 ≤ p) (h2 : p ≤ 128) :
    Emits (e.narrowed b p) (s.narrow b (splitWidth p s.width)) ∧ 0 < (s.narrow b (splitWidth p s.width)).width ∧
      (s.narrow b (splitWidth p s.width)).low + (s.narrow b (splitWidth p s.width)).width ≤
        2 ^ (12 + (s.narrow b (splitWidth p s.width)).shifts) := by
  have hfit := symbol_fits b h1 h2
  obtain ⟨hq0, hq1⟩ := hfit _ hs
  obtain ⟨hw0, hw1⟩ := narrow_width hs hfit
  have hw := h.width
  have hroom := h.room
  have hval := h.digits.value_eq
  have hhi := (narrow_within s (symbol b p).bit hq1.le).high_le
  have hsh : (s.narrow (symbol b p).bit ((symbol b p).split s.width)).shifts = s.shifts := by
    unfold State.narrow; split <;> rfl
  refine ⟨?_, hw0, ?_⟩
  · simp only [symbol] at hq1
    unfold narrowed
    cases b
    · refine ⟨by simp [State.narrow, hw], ⟨h.digits.length_eq, ?_⟩, ?_⟩
      · show 4096 * value e.emitted + (e.c + (e.a - splitWidth p e.a)) = s.low + (s.width - splitWidth p s.width)
        rw [hw]
        omega
      · simp only [if_true]
        rw [hw]
        omega
    · refine ⟨by simp [State.narrow, hw], ⟨h.digits.length_eq, hval⟩, ?_⟩
      simp only [Bool.true_eq_false, if_false]
      omega
  · rw [hsh, Nat.sub_self, pow_zero, Nat.mul_one] at hhi
    exact hhi.trans (by rw [show (s.narrow b (splitWidth p s.width)).shifts = s.shifts from hsh]; exact hlow)

/-- **One coded bit** of the encoder is one step of the interval coder. -/
theorem encodeBit_emits {e : ArithmeticBitEncoder} {s : State} (h : Emits e s) (hs : Normal 12 s.width)
    (hlow : s.low + s.width ≤ 2 ^ (12 + s.shifts)) {bit : Bool} {p : ℕ} (h1 : 1 ≤ p) (h2 : p ≤ 128) :
    Emits (e.encodeBit bit p) (step 12 s (symbol bit p)) := by
  obtain ⟨hnar, hw0, hhi⟩ := narrow_emits (b := bit) h hs hlow h1 h2
  refine shiftWhile_emits _ hnar hw0 ?_ hhi
  simp only [renorm, arithmeticBits]
  omega

/-- The coded bits of a list of `(bit, probability)` pairs. -/
def encodeAll (e : ArithmeticBitEncoder) (ps : List (Bool × ℕ)) : ArithmeticBitEncoder :=
  ps.foldl (fun e x => e.encodeBit x.1 x.2) e

def symbols (ps : List (Bool × ℕ)) : List Symbol := ps.map fun x => symbol x.1 x.2

/-- Every probability is one the coder accepts. -/
def Legal (ps : List (Bool × ℕ)) : Prop := ∀ x ∈ ps, 1 ≤ x.2 ∧ x.2 ≤ 128

theorem symbols_fit {ps : List (Bool × ℕ)} (h : Legal ps) : ∀ x ∈ symbols ps, x.Fits 12 := by
  intro x hx
  obtain ⟨y, hy, rfl⟩ := List.mem_map.1 hx
  exact symbol_fits _ (h y hy).1 (h y hy).2

theorem step_low_le {s : State} {x : Symbol} (hs : Normal 12 s.width) (hfit : x.Fits 12)
    (hlow : s.low + s.width ≤ 2 ^ (12 + s.shifts)) :
    (step 12 s x).low + (step 12 s x).width ≤ 2 ^ (12 + (step 12 s x).shifts) := by
  have hin := step_within hs hfit
  calc (step 12 s x).low + (step 12 s x).width
      ≤ (s.low + s.width) * 2 ^ ((step 12 s x).shifts - s.shifts) := hin.high_le
    _ ≤ 2 ^ (12 + s.shifts) * 2 ^ ((step 12 s x).shifts - s.shifts) := Nat.mul_le_mul_right _ hlow
    _ = 2 ^ (12 + (step 12 s x).shifts) := by
        rw [← pow_add]
        congr 1
        have := hin.shifts_le
        omega

theorem encodeAll_emits {ps : List (Bool × ℕ)} (h : Legal ps) : ∀ {e : ArithmeticBitEncoder} {s : State}, Emits e s →
    Normal 12 s.width → s.low + s.width ≤ 2 ^ (12 + s.shifts) → Emits (e.encodeAll ps) (encode 12 s (symbols ps)) := by
  induction ps with
  | nil => intro e s he _ _; exact he
  | cons x ps ih =>
    intro e s he hs hlow
    obtain ⟨h1, h2⟩ := h x (by simp)
    have hfit := symbol_fits x.1 h1 h2
    exact ih (fun y hy => h y (by simp [hy])) (encodeBit_emits he hs hlow h1 h2) (step_normal (by omega) hs hfit)
      (step_low_le hs hfit hlow)

/-- The shifts of `finish`. -/
theorem iterate_shiftOut_digits {e : ArithmeticBitEncoder} {t : State} (h : Emits e t) (h0 : 0 < t.width)
    (hlow : t.low + t.width ≤ 2 ^ (12 + t.shifts)) (k : ℕ) :
    Digits (shiftOut^[k] e) (t.low * 2 ^ k) (t.shifts + k) ∧ (shiftOut^[k] e).c < 8192 ∧
      t.low * 2 ^ k < 2 ^ (12 + (t.shifts + k)) ∧ (0 < k → (shiftOut^[k] e).c < 4096) := by
  have hlt : t.low * 2 ^ k < 2 ^ (12 + (t.shifts + k)) := by
    rw [← Nat.add_assoc, pow_add _ _ k]
    exact Nat.mul_lt_mul_of_pos_right (by omega) (Nat.two_pow_pos _)
  induction k with
  | zero => exact ⟨by simpa using h.digits, by have := h.room; simp; omega, hlt, by simp⟩
  | succ k ih =>
    obtain ⟨hd, hc, hlt', _⟩ := ih (by
      rw [← Nat.add_assoc, pow_add _ _ k]
      exact Nat.mul_lt_mul_of_pos_right (by omega) (Nat.two_pow_pos _))
    rw [Function.iterate_succ_apply']
    obtain ⟨hd', hc'⟩ := shiftOut_digits hd hc hlt'
    exact ⟨by rw [pow_succ, ← Nat.mul_assoc]; exact hd', by omega, hlt, fun _ => hc'⟩

/-- `finish` writes out the low end of the interval, all its digits. -/
theorem finish_codes {e : ArithmeticBitEncoder} {t : State} (h : Emits e t) (h0 : 0 < t.width)
    (hlow : t.low + t.width ≤ 2 ^ (12 + t.shifts)) : Codes 12 e.finish t := by
  obtain ⟨hd, _, _, hc⟩ := iterate_shiftOut_digits h h0 hlow 12
  have hval := hd.value_eq
  have hc := hc (by omega)
  refine ⟨?_, ?_, h0⟩
  · rw [finish, flushPending_bits]
    have := hd.length_eq
    simp only [arithmeticBits]
    omega
  · rw [finish, flushPending_bits]
    simp only [arithmeticBits]
    omega

end ArithmeticBitEncoder

/-! ## `ArithmeticCoder` (decoder.rs:1029) -/

structure ArithmeticCoder where
  a : ℕ
  c : ℕ

/-- `u32::checked_shl`: the shift fails only for a count of 32 or more; high bits are dropped. -/
def checkedShl (x n : ℕ) : Option ℕ := if n < 32 then some ((x <<< n) % 2 ^ 32) else none

namespace ArithmeticCoder

def new : Parse ArithmeticCoder := do
  enableZeroPaddingAfterEof
  let c ← readBits 12
  return ⟨arithmeticOne - 1, c⟩

/-- `get` (decoder.rs:1041). -/
def get (s : ArithmeticCoder) (probability : ℤ) : Parse (Bool × ArithmeticCoder) := do
  if ¬ (1 ≤ probability ∧ probability ≤ 128) then
    fail (.invalidProbabilityTable "invalid arithmetic probability")
  else
    let p := probability.toNat
    let k := (s.a >>> 8) ||| ((s.a >>> 7) &&& 1)
    let q ← okOr (.arithmeticDecodeFailure "arithmetic probability product overflow")
      (if k * p < 2 ^ 32 then some (k * p) else none)
    let aMinusQ ← okOr (.arithmeticDecodeFailure "arithmetic coder interval underflow") (checkedSub s.a q)
    let bit := decide (s.c < aMinusQ)
    let a := if bit then aMinusQ else q
    let c := if bit then s.c else s.c - aMinusQ
    if a = 0 then fail (.arithmeticDecodeFailure "arithmetic coder interval collapsed")
    else if a < arithmeticHalf then
      let n := 11 - Nat.log2 a
      let a ← okOr (.arithmeticDecodeFailure "arithmetic interval shift overflow") (checkedShl a n)
      let c ← okOr (.arithmeticDecodeFailure "arithmetic code shift overflow") (checkedShl c n)
      let low ← readBits n
      return (bit, ⟨a, c ||| low⟩)
    else return (bit, ⟨a, c⟩)

/-- The interval decoder's registers, the position aside. -/
def ofDecoder (d : Decoder) : ArithmeticCoder := ⟨d.width, d.code⟩

theorem new_run {r : BitReader} (hr : r.Sized) (bs : List Bool) (hl : bs.length = 12) (h : bs <+: r.rest) :
    new r = .ok (⟨4095, value bs⟩, { r.advance 12 with zeroPadAfterEof := true }) := by
  have hread := readBits_reads bs (by omega) { r with zeroPadAfterEof := true } hr h
  rw [hl] at hread
  simp only [new, enableZeroPaddingAfterEof, bind, StateT.bind, modify, modifyGet, MonadStateOf.modifyGet,
    StateT.modifyGet, pure, Except.pure, StateT.pure, Except.bind, hread]
  rfl

/-- **`ArithmeticCoder::get` is the interval decoder's `get`**, and reads exactly the refill bits. -/
theorem get_reads {code : List Bool} {d : Decoder} {p : ℕ} (h1 : 1 ≤ p) (h2 : p ≤ 128) (hd : Normal 12 d.width)
    (hc : d.code < d.width) (hlen : (d.get 12 code (splitWidth p d.width)).2.pos ≤ code.length) :
    Reads (get (ofDecoder d) p)
      ((code.drop d.pos).take ((d.get 12 code (splitWidth p d.width)).2.pos - d.pos))
      ((d.get 12 code (splitWidth p d.width)).1, ofDecoder (d.get 12 code (splitWidth p d.width)).2) := by
  obtain ⟨hlo, hhi⟩ := hd
  obtain ⟨hq0, hq1⟩ := ArithmeticBitEncoder.symbol_fits false h1 h2 d.width ⟨hlo, hhi⟩
  simp only [ArithmeticBitEncoder.symbol] at hq0 hq1
  obtain ⟨q, hq⟩ : ∃ q, splitWidth p d.width = q := ⟨_, rfl⟩
  obtain ⟨bit, hbit⟩ : ∃ bit, decide (d.code < d.width - q) = bit := ⟨_, rfl⟩
  obtain ⟨a, ha⟩ : ∃ a, (if bit = true then d.width - q else q) = a := ⟨_, rfl⟩
  obtain ⟨c, hcdef⟩ : ∃ c, (if bit = true then d.code else d.code - (d.width - q)) = c := ⟨_, rfl⟩
  rw [hq] at hq0 hq1
  simp only [Decoder.get, hq, hbit, ha, hcdef] at hlen ⊢
  have ha0 : 0 < a := by rw [← ha]; split <;> omega
  have ha1 : a < 4096 := by rw [← ha]; split <;> omega
  have hca : c < a := by
    rw [← ha, ← hcdef, ← hbit]
    by_cases hb : d.code < d.width - q
    · rw [decide_eq_true hb]; simpa using hb
    · rw [decide_eq_false hb]; simp; omega
  have hqk : (d.width >>> 8 ||| d.width >>> 7 &&& 1) * p = q := hq
  intro r hr hpre
  have hget : get ⟨d.width, d.code⟩ (p : ℤ) = (if a < arithmeticHalf then do
      let low ← readBits (renorm 12 a)
      pure (bit, ⟨a * 2 ^ renorm 12 a, (c * 2 ^ renorm 12 a) ||| low⟩)
    else pure (bit, ⟨a, c⟩) : Parse (Bool × ArithmeticCoder)) := by
    have hn : 11 - Nat.log2 a = renorm 12 a := by rw [renorm, Nat.log2_eq_log_two]
    have hn32 : renorm 12 a < 32 := by unfold renorm; omega
    have hshift : ∀ x < 4096, x * 2 ^ renorm 12 a % 2 ^ 32 = x * 2 ^ renorm 12 a := by
      intro x hx
      apply Nat.mod_eq_of_lt
      have : 2 ^ renorm 12 a ≤ 2 ^ 11 := Nat.pow_le_pow_right (by omega) (by unfold renorm; omega)
      calc x * 2 ^ renorm 12 a < 4096 * 2 ^ renorm 12 a := Nat.mul_lt_mul_of_pos_right hx (Nat.two_pow_pos _)
        _ ≤ 4096 * 2 ^ 11 := Nat.mul_le_mul_left _ this
        _ < 2 ^ 32 := by norm_num
    have hsa : checkedShl a (renorm 12 a) = some (a * 2 ^ renorm 12 a) := by
      rw [checkedShl, if_pos hn32, Nat.shiftLeft_eq, hshift a ha1]
    have hsc : checkedShl c (renorm 12 a) = some (c * 2 ^ renorm 12 a) := by
      rw [checkedShl, if_pos hn32, Nat.shiftLeft_eq, hshift c (by omega)]
    have hp : ¬ ¬ ((1 : ℤ) ≤ (p : ℤ) ∧ (p : ℤ) ≤ 128) := by omega
    simp only [get, if_neg hp, Int.toNat_natCast, hqk, show q < 2 ^ 32 by omega, if_true, okOr_some,
      pure_bind, checkedSub_of_le hq1.le]
    rw [hbit, ha, hcdef, if_neg ha0.ne', hn, hsa, hsc]
    simp only [okOr_some, pure_bind]
  rw [ofDecoder, hget]
  by_cases hhalf : a < 2048
  · have hle : renorm 12 a ≤ (code.drop d.pos).length := by
      rw [List.length_drop]
      omega
    have hfill := readBits_reads ((code.drop d.pos).take (renorm 12 a)) (by simp [renorm]; omega)
    rw [List.length_take, min_eq_left hle] at hfill
    rw [if_pos (show a < arithmeticHalf from hhalf)]
    have key := hfill.bind (f := fun low => (pure (bit, ⟨a * 2 ^ renorm 12 a, (c * 2 ^ renorm 12 a) ||| low⟩) :
      Parse (Bool × ArithmeticCoder))) (Reads.pure _)
    rw [List.append_nil] at key
    rw [Nat.add_sub_cancel_left] at hpre ⊢
    have hor : c * 2 ^ renorm 12 a ||| value ((code.drop d.pos).take (renorm 12 a)) =
        c * 2 ^ renorm 12 a + value ((code.drop d.pos).take (renorm 12 a)) := by
      have hv := value_lt ((code.drop d.pos).take (renorm 12 a))
      rw [List.length_take, min_eq_left hle] at hv
      rw [← Nat.shiftLeft_eq, Nat.shiftLeft_add_eq_or_of_lt hv]
    rw [hor] at key
    exact key r hr hpre
  · have hz : renorm 12 a = 0 := ArithmeticBitEncoder.renorm_of_ge (by omega)
    rw [if_neg (show ¬ a < arithmeticHalf from hhalf)]
    simp only [hz, Nat.add_zero, Nat.sub_self, List.take_zero] at hpre ⊢
    simpa [ofDecoder] using Reads.pure (bit, (⟨a, c⟩ : ArithmeticCoder)) r hr hpre

/-- **The decoder reads back a coded symbol** and tracks the encoder past it. -/
theorem get_symbol {code : List Bool} {s t : State} {d : Decoder} {bit : Bool} {p : ℕ} (h1 : 1 ≤ p) (h2 : p ≤ 128)
    (hcodes : Codes 12 code t) (hn : Normal 12 s.width)
    (ht : Within t (step 12 s (ArithmeticBitEncoder.symbol bit p))) (hd : Tracks 12 code s d) :
    ∃ d', Reads (get (ofDecoder d) p) ((code.drop d.pos).take (d'.pos - d.pos)) (bit, ofDecoder d') ∧ d.pos ≤ d'.pos ∧
      Tracks 12 code (step 12 s (ArithmeticBitEncoder.symbol bit p)) d' := by
  have hfit := ArithmeticBitEncoder.symbol_fits bit h1 h2
  obtain ⟨hbit, htr⟩ := get_tracks hcodes hn hfit ht hd
  have hsplit : (ArithmeticBitEncoder.symbol bit p).split = splitWidth p := rfl
  rw [hsplit, ← hd.width] at hbit htr
  have hin := hd.in_range hcodes (ht.trans (step_within hn hfit))
  have hread := get_reads h1 h2 (hd.width ▸ hn) hin.1 (htr.in_range hcodes ht).2
  rw [hbit] at hread
  exact ⟨_, hread, Nat.le_add_right _ _, htr⟩

end ArithmeticCoder
end Dst
