import Tonepoet.Dvda.LpcmParameters

/-!
# The samples of a packed group

A group is packed with the high sixteen bits of all its samples first, big-endian, then the low bits. A sample comes out as a
signed number moved to the left end of 32 bits; but the low bits of a 20-bit sample of the second group stay four bits
to the right, as in the player that the source follows.
-/

namespace Dvda

open ByteFile

/-- The high sixteen bits of the sample at `i`. -/
def highBits (block : List UInt8) (i : ℕ) : ℕ := ofBe [block.getD (2 * i) 0, block.getD (2 * i + 1) 0]

/-- The low four bits of a 20-bit sample: two samples share a byte. -/
def lowNibble (block : List UInt8) (channels i : ℕ) : ℕ :=
  if i % 2 = 0 then (block.getD (4 * channels + i / 2) 0).toNat / 16 else (block.getD (4 * channels + i / 2) 0).toNat % 16

/-- The bits of the sample at `i`. -/
def sourceSample (block : List UInt8) (channels bits i : ℕ) : ℕ :=
  if bits = 16 then highBits block i
  else if bits = 20 then highBits block i * 16 + lowNibble block channels i
  else highBits block i * 256 + (block.getD (4 * channels + i) 0).toNat

/-- The signed sample at the left end of 32 bits. -/
def leftAligned (bits raw : ℕ) : BitVec 32 := BitVec.ofInt 32 ((BitVec.ofNat bits raw).toInt * 2 ^ (32 - bits))

/-- The word that the sample at `i` comes out as. -/
def groupWord (group : LpcmGroup) (block : List UInt8) (channels bits i : ℕ) : BitVec 32 :=
  if group = .group2 ∧ bits = 20 then
    leftAligned 16 (highBits block i) + BitVec.ofNat 32 (lowNibble block channels i * 2 ^ 8)
  else leftAligned bits (sourceSample block channels bits i)

variable {block : List UInt8} {channels bits raw i : ℕ} {group : LpcmGroup}

theorem ofBe_pair (a b : UInt8) : ofBe [a, b] = a.toNat * 256 + b.toNat := by
  change b.toNat + 256 * (a.toNat + 256 * 0) = _
  omega

theorem highBits_lt (block : List UInt8) (i : ℕ) : highBits block i < 2 ^ 16 := by
  rw [highBits, ofBe_pair]
  have h0 := (block.getD (2 * i) 0).toNat_lt
  have h1 := (block.getD (2 * i + 1) 0).toNat_lt
  omega

theorem lowNibble_lt (block : List UInt8) (channels i : ℕ) : lowNibble block channels i < 16 := by
  have h := (block.getD (4 * channels + i / 2) 0).toNat_lt
  rw [lowNibble]
  split <;> omega

theorem sourceSample_lt (hbits : ValidBits bits) : sourceSample block channels bits i < 2 ^ bits := by
  have hhigh := highBits_lt block i
  have hnibble := lowNibble_lt block channels i
  have hlow := (block.getD (4 * channels + i) 0).toNat_lt
  rcases hbits with rfl | rfl | rfl <;> simp only [sourceSample, reduceIte, Nat.reduceEqDiff] <;> omega

/-- **A left-aligned sample is its number times a power of two**, for signed samples as for the bits. -/
theorem leftAligned_toNat (hbits : ValidBits bits) (hraw : raw < 2 ^ bits) : (leftAligned bits raw).toNat = raw * 2 ^ (32 - bits) := by
  rcases hbits with rfl | rfl | rfl <;> rw [leftAligned, BitVec.toNat_ofInt, BitVec.toInt_eq_toNat_cond, BitVec.toNat_ofNat, Nat.mod_eq_of_lt hraw] <;>
    split <;> omega

theorem leftAligned_toInt (hbits : ValidBits bits) (hraw : raw < 2 ^ bits) :
    (leftAligned bits raw).toInt = (BitVec.ofNat bits raw).toInt * 2 ^ (32 - bits) := by
  rw [BitVec.toInt_eq_toNat_cond, leftAligned_toNat hbits hraw]
  rcases hbits with rfl | rfl | rfl <;> rw [BitVec.toInt_eq_toNat_cond, BitVec.toNat_ofNat, Nat.mod_eq_of_lt hraw] <;> split <;> split <;> omega

theorem i32FromLeBytes_toNat (b0 b1 b2 b3 : UInt8) :
    (i32FromLeBytes b0 b1 b2 b3).toNat = b0.toNat + 2 ^ 8 * b1.toNat + 2 ^ 16 * b2.toNat + 2 ^ 24 * b3.toNat := by
  have h0 := b0.toNat_lt
  have h1 := b1.toNat_lt
  have h2 := b2.toNat_lt
  have h3 := b3.toNat_lt
  rw [i32FromLeBytes, BitVec.toNat_ofNat]
  simp only [ofLe]
  omega

theorem i16FromBeBytes_toNat (high low : UInt8) : (i16FromBeBytes high low <<< 16).toNat = ofBe [high, low] * 2 ^ 16 := by
  have hhigh := high.toNat_lt
  have hlow := low.toNat_lt
  rw [BitVec.toNat_shiftLeft, i16FromBeBytes, BitVec.toNat_signExtend, BitVec.toNat_setWidth, BitVec.toNat_ofNat, ofBe_pair, Nat.shiftLeft_eq]
  split <;> omega

/-- The nibbles of a byte, left and right in it. -/
theorem nibbles (b : UInt8) : (b &&& 0xf0).toNat = b.toNat / 16 * 16 ∧ (b <<< 4).toNat = b.toNat % 16 * 16 ∧ (b >>> 4).toNat = b.toNat / 16 ∧
    (b &&& 0x0f).toNat = b.toNat % 16 := by
  have hall : ∀ n < 256, (UInt8.ofNat n &&& 0xf0).toNat = n / 16 * 16 ∧ (UInt8.ofNat n <<< 4).toNat = n % 16 * 16 ∧
      (UInt8.ofNat n >>> 4).toNat = n / 16 ∧ (UInt8.ofNat n &&& 0x0f).toNat = n % 16 := by decide +kernel
  have h := hall b.toNat b.toNat_lt
  rwa [UInt8.ofNat_toNat] at h

/-- **The words of a group.** -/
theorem groupSample_eq (hbits : ValidBits bits) (hlength : block.length = channels * bits / 4) (hi : i < 2 * channels) :
    groupSample block channels bits group i = groupWord group block channels bits i := by
  have hhigh : highBits block i = (block.getD (2 * i) 0).toNat * 256 + (block.getD (2 * i + 1) 0).toNat := ofBe_pair _ _
  have hhighLt := highBits_lt block i
  have hraw : sourceSample block channels bits i < 2 ^ bits := sourceSample_lt hbits
  rcases hbits with rfl | rfl | rfl
  · rw [groupWord, if_neg (by simp), groupSample, if_pos rfl, ← BitVec.toNat_inj, leftAligned_toNat (.inl rfl) hraw, i16FromBeBytes_toNat]
    rfl
  · have hoffset : packedNibbleOffset20bit block channels = 4 * channels := by
      simp only [packedNibbleOffset20bit]
      rw [if_neg (by omega)]
    obtain ⟨hleft0, hleft1, hright0, hright1⟩ := nibbles (block.getD (4 * channels + i / 2) 0)
    have hnibbleLt := lowNibble_lt block channels i
    have hnibble : lowNibble block channels i = if i % 2 = 0 then (block.getD (4 * channels + i / 2) 0).toNat / 16
      else (block.getD (4 * channels + i / 2) 0).toNat % 16 := rfl
    rw [groupSample, if_neg (by decide), if_pos rfl, hoffset, ← BitVec.toNat_inj, i32FromLeBytes_toNat]
    cases group with
    | group1 =>
      have hsource : sourceSample block channels 20 i = highBits block i * 16 + lowNibble block channels i := rfl
      have hword : groupWord .group1 block channels 20 i = leftAligned 20 (sourceSample block channels 20 i) := if_neg (by simp)
      rw [hword, leftAligned_toNat (.inr (.inl rfl)) hraw, hsource, hhigh, hnibble]
      dsimp only
      split <;> simp only [hleft0, hleft1, UInt8.toNat_zero] <;> omega
    | group2 =>
      have hword : groupWord .group2 block channels 20 i =
        leftAligned 16 (highBits block i) + BitVec.ofNat 32 (lowNibble block channels i * 2 ^ 8) := if_pos ⟨rfl, rfl⟩
      rw [hword, BitVec.toNat_add, leftAligned_toNat (.inl rfl) hhighLt, BitVec.toNat_ofNat, hhigh, hnibble]
      rw [hhigh] at hhighLt
      rw [hnibble] at hnibbleLt
      dsimp only
      split <;> simp only [hright0, hright1, UInt8.toNat_zero] <;> split at hnibbleLt <;> omega
  · have hneither : ¬ (group = .group2 ∧ (24 : ℕ) = 20) := by simp
    rw [groupWord, if_neg hneither, groupSample, if_neg (by decide), if_neg (by decide), ← BitVec.toNat_inj, leftAligned_toNat (.inr (.inr rfl)) hraw,
      i32FromLeBytes_toNat, sourceSample, if_neg (by decide), if_neg (by decide), hhigh]
    simp only [UInt8.toNat_zero]
    omega

end Dvda
