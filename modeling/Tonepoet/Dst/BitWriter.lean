import Tonepoet.Dst.BitReader

/-!
# `BitWriter` (dst/encoder.rs:1620)

`Wrote w bs`: the bytes of `w` hold the bits `bs` followed by the zeros of the unfinished byte. Each
write appends to `bs`, so the finished bytes start with everything that was written.
-/

namespace Dst

open BitString BitReader

structure BitWriter where
  bytes : List UInt8
  bitPos : ℕ

namespace BitWriter

def new : BitWriter := ⟨[], 0⟩

/-- `self.bytes[idx] |= 1u8 << (7 - self.bit_pos)` on the last byte. -/
def setLast (bytes : List UInt8) (bitPos : ℕ) : List UInt8 :=
  bytes.modify (bytes.length - 1) fun b => b ||| UInt8.ofNat (1 <<< (7 - bitPos))

/-- `write_bit` (encoder.rs:1634). -/
def writeBit (w : BitWriter) (bit : Bool) : BitWriter :=
  let bytes := if w.bitPos = 0 then w.bytes ++ [0] else w.bytes
  let bytes := if bit then setLast bytes w.bitPos else bytes
  ⟨bytes, (w.bitPos + 1) % 8⟩

/-- `write_bits` (encoder.rs:1645). -/
def writeBits (w : BitWriter) (value : ℕ) : ℕ → BitWriter
  | 0 => w
  | bits + 1 => writeBits (w.writeBit (value.testBit bits)) value bits

/-- `write_signed` (encoder.rs:1651): two's complement, masked to `bits`. -/
def writeSigned (w : BitWriter) (value : ℤ) (bits : ℕ) : BitWriter :=
  let mask := if bits = 32 then 2 ^ 32 - 1 else 1 <<< bits - 1
  w.writeBits ((BitVec.ofInt 32 value).toNat &&& mask) bits

/-- `write_bit_slice` (encoder.rs:1656). -/
def writeBitSlice (w : BitWriter) (bits : List Bool) : BitWriter := bits.foldl writeBit w

def intoBytes (w : BitWriter) : List UInt8 := w.bytes

/-! ## What has been written -/

/-- `bs` has been written: the bytes are `bs` and the zeros that fill the last byte. -/
structure Wrote (w : BitWriter) (bs : List Bool) : Prop where
  bits : bitsOf w.bytes = bs ++ List.replicate ((8 - bs.length % 8) % 8) false
  pos : w.bitPos = bs.length % 8

theorem wrote_new : Wrote new [] := ⟨rfl, rfl⟩

/-- Setting bit `7 - i` of a byte sets bit `i` in reading order. -/
theorem byteBits_or (b : UInt8) {i : ℕ} (hi : i < 8) :
    byteBits (b ||| UInt8.ofNat (1 <<< (7 - i))) = (byteBits b).set i true := by
  apply List.ext_getElem?
  intro j
  rw [List.getElem?_set, length_byteBits]
  by_cases hj : j < 8
  · rw [byteBits, byteBits, getElem?_ofNat hj, getElem?_ofNat hj, UInt8.toNat_or, Nat.testBit_or]
    have hpow : (UInt8.ofNat (1 <<< (7 - i))).toNat = 2 ^ (7 - i) := by
      rw [UInt8.toNat_ofNat', Nat.one_shiftLeft]
      exact Nat.mod_eq_of_lt (Nat.pow_lt_pow_right (by omega) (by omega))
    rw [hpow, Nat.testBit_two_pow]
    by_cases hij : i = j
    · subst hij
      simp [hi]
    · rw [if_neg hij, decide_eq_false (by omega), Bool.or_false]
  · rw [List.getElem?_eq_none (by simp; omega), List.getElem?_eq_none (by simp; omega)]
    by_cases hij : i = j
    · omega
    · rw [if_neg hij]

theorem bitsOf_append (as bs : List UInt8) : bitsOf (as ++ bs) = bitsOf as ++ bitsOf bs := by
  simp [bitsOf, List.flatMap_append]

theorem bitsOf_setLast (bytes : List UInt8) (b : UInt8) {i : ℕ} (hi : i < 8) :
    bitsOf (setLast (bytes ++ [b]) i) = bitsOf bytes ++ (byteBits b).set i true := by
  have hmod : setLast (bytes ++ [b]) i = bytes ++ [b ||| UInt8.ofNat (1 <<< (7 - i))] := by
    unfold setLast
    rw [List.modify_eq_set_getElem?]
    simp
  rw [hmod, bitsOf_append, ← byteBits_or b hi]
  simp [bitsOf]

/-- The bits of the unfinished last byte. -/
theorem Wrote.last {w : BitWriter} {bs : List Bool} (h : Wrote w bs) (hp : w.bitPos ≠ 0) :
    ∃ init b, w.bytes = init ++ [b] ∧ bitsOf init = bs.take (bs.length / 8 * 8) ∧
      byteBits b = bs.drop (bs.length / 8 * 8) ++ List.replicate (8 - bs.length % 8) false := by
  have hpos := h.pos
  have hbits := h.bits
  rw [Nat.mod_eq_of_lt (show 8 - bs.length % 8 < 8 by omega)] at hbits
  have hlen := congrArg List.length hbits
  simp only [length_bitsOf, List.length_append, List.length_replicate] at hlen
  obtain ⟨init, b, hib⟩ : ∃ init b, w.bytes = init ++ [b] := by
    have hne : w.bytes ≠ [] := by intro h0; rw [h0] at hlen; simp at hlen; omega
    exact ⟨_, _, (List.dropLast_append_getLast hne).symm⟩
  have hsplit : bitsOf init ++ byteBits b =
      bs.take (bs.length / 8 * 8) ++ (bs.drop (bs.length / 8 * 8) ++ List.replicate (8 - bs.length % 8) false) := by
    rw [← List.append_assoc, List.take_append_drop, ← hbits, hib, bitsOf_append]
    simp [bitsOf]
  have hleninit : (bitsOf init).length = (bs.take (bs.length / 8 * 8)).length := by
    rw [hib] at hlen
    simp only [List.length_append, List.length_singleton] at hlen
    rw [length_bitsOf, List.length_take]
    omega
  exact ⟨init, b, hib, List.append_inj_left hsplit hleninit, List.append_inj_right hsplit hleninit⟩

theorem writeBit_wrote {w : BitWriter} {bs : List Bool} (h : Wrote w bs) (bit : Bool) :
    Wrote (w.writeBit bit) (bs ++ [bit]) := by
  have hpos := h.pos
  refine ⟨?_, by simp [writeBit, hpos, Nat.add_mod]⟩
  rw [List.length_append, List.length_singleton]
  by_cases hp : w.bitPos = 0
  · -- a fresh byte: `bs` ends on a byte boundary
    have h8 : bs.length % 8 = 0 := by omega
    have hbits := h.bits
    rw [h8] at hbits
    simp only [Nat.sub_zero, Nat.mod_self, List.replicate_zero, List.append_nil] at hbits
    rw [show (8 - (bs.length + 1) % 8) % 8 = 7 by omega]
    cases bit
    · simp only [writeBit, hp, if_true, Bool.false_eq_true, if_false, bitsOf_append, hbits, List.append_assoc]
      rfl
    · simp only [writeBit, hp, if_true, bitsOf_setLast _ _ (show 0 < 8 by omega), hbits, List.append_assoc]
      rfl
  · obtain ⟨init, b, hib, hinit, hb⟩ := h.last hp
    set tl := bs.drop (bs.length / 8 * 8) with htl
    have hlen : tl.length = bs.length % 8 := by rw [htl, List.length_drop]; omega
    obtain ⟨k, hk⟩ : ∃ k, 8 - bs.length % 8 = k + 1 := ⟨7 - bs.length % 8, by omega⟩
    rw [show (8 - (bs.length + 1) % 8) % 8 = k by omega]
    have hbs : bs = bs.take (bs.length / 8 * 8) ++ tl := (List.take_append_drop _ _).symm
    rw [hk, List.replicate_succ] at hb
    cases bit
    · simp only [writeBit, hp, Bool.false_eq_true, if_false, hib, bitsOf_append, hinit]
      conv_rhs => rw [hbs]
      simp [bitsOf, hb]
    · simp only [writeBit, hp, if_false, if_true, hib]
      rw [bitsOf_setLast _ _ (by omega), hinit, hb, hpos, ← hlen, List.set_append_right _ _ le_rfl, Nat.sub_self]
      conv_rhs => rw [hbs]
      simp

theorem writeBits_wrote {w : BitWriter} {bs : List Bool} (h : Wrote w bs) (value n : ℕ) :
    Wrote (w.writeBits value n) (bs ++ ofNat n value) := by
  induction n generalizing w bs with
  | zero => simpa [writeBits, ofNat] using h
  | succ n ih => simpa [writeBits, ofNat] using ih (writeBit_wrote h (value.testBit n))

theorem writeBitSlice_wrote {w : BitWriter} {bs : List Bool} (h : Wrote w bs) (cs : List Bool) :
    Wrote (w.writeBitSlice cs) (bs ++ cs) := by
  induction cs generalizing w bs with
  | nil => simpa [writeBitSlice] using h
  | cons c cs ih => simpa [writeBitSlice] using ih (writeBit_wrote h c)

/-- The mask keeps the residue modulo `2 ^ bits` of the signed value. -/
theorem writeSigned_wrote {w : BitWriter} {bs : List Bool} (h : Wrote w bs) (value : ℤ) {n : ℕ} (hn : n < 32) :
    Wrote (w.writeSigned value n) (bs ++ ofNat n (value % 2 ^ n).toNat) := by
  have hdvd : (2 : ℤ) ^ n ∣ 2 ^ 32 := pow_dvd_pow 2 hn.le
  have hmod : (BitVec.ofInt 32 value).toNat % 2 ^ n = (value % 2 ^ n).toNat := by
    rw [BitVec.toNat_ofInt]
    zify
    rw [Int.toNat_of_nonneg (Int.emod_nonneg _ (by positivity)), Int.toNat_of_nonneg (Int.emod_nonneg _ (by positivity))]
    exact Int.emod_emod_of_dvd _ hdvd
  have hmask : (BitVec.ofInt 32 value).toNat &&& (if n = 32 then 2 ^ 32 - 1 else 1 <<< n - 1) = (value % 2 ^ n).toNat := by
    rw [if_neg (by omega), Nat.one_shiftLeft, Nat.and_two_pow_sub_one_eq_mod, hmod]
  simp only [writeSigned, hmask]
  exact writeBits_wrote h _ n

/-- Everything written is at the front of the finished bytes. -/
theorem Wrote.isPrefix {w : BitWriter} {bs : List Bool} (h : Wrote w bs) : bs <+: bitsOf w.intoBytes := by
  rw [intoBytes, h.bits]
  exact List.prefix_append _ _

theorem Wrote.length_bytes {w : BitWriter} {bs : List Bool} (h : Wrote w bs) :
    w.intoBytes.length * 8 < bs.length + 8 := by
  have := congrArg List.length h.bits
  rw [length_bitsOf, List.length_append, List.length_replicate] at this
  simp only [intoBytes]
  omega

end BitWriter
end Dst
