import Mathlib
import Tonepoet.Library.BitString
import Tonepoet.Library.Hoare
import Tonepoet.Rust

/-!
# `BitReader` (dst/bitreader.rs)

The reader works on a byte slice and a bit position; `rest` is the abstract view, the list of bits it
has not read. `Reads p bs a` says that the parser `p` consumes exactly the bits `bs` and returns `a`,
and composes along `>>=` (`Reads.bind`), so a header is checked field by field.
-/

namespace Dst

open Rust BitString Hoare

/-- `DstError` (dst/mod.rs). -/
inductive DstError where
  | unexpectedEof (consumed : ℕ)
  | invalidChannelCount (channelCount : ℕ)
  | unsupportedRate (sampleRate : ℕ)
  | malformedFrame (msg : String)
  | invalidSegment (msg : String)
  | invalidMapping (msg : String)
  | invalidProbabilityTable (msg : String)
  | invalidArithmeticCode
  | arithmeticDecodeFailure (msg : String)
  | outputBufferTooSmall (required actual : ℕ)
  | outputSizeMismatch (expected actual : ℕ)
  | outputOverflow (limit : ℕ)
  | internalDecodeError (msg : String)
  deriving DecidableEq, Repr

structure BitReader where
  input : List UInt8
  bitPos : ℕ
  zeroPadAfterEof : Bool

/-- Functions that take `&mut BitReader` and return `Result<_, DstError>`. -/
abbrev Parse := StateT BitReader (Outcome DstError)

namespace BitReader

def new (input : List UInt8) : BitReader := ⟨input, 0, false⟩

def totalBits (r : BitReader) : Parse ℕ :=
  okOr (.internalDecodeError "bit reader input length overflow") (checkedMul r.input.length 8)

/-- `has_physical_bits_remaining` (bitreader.rs:23). -/
def hasPhysicalBitsRemaining : Parse Bool := do
  let r ← get
  let total ← r.totalBits
  return r.bitPos < total

/-- `enable_zero_padding_after_eof` (bitreader.rs:30). -/
def enableZeroPaddingAfterEof : Parse Unit := modify fun r => { r with zeroPadAfterEof := true }

/-- `self.bit_pos = self.bit_pos.checked_add(1)`. -/
def bump : Parse Unit := do
  let r ← get
  let pos ← okOr (.internalDecodeError "bit reader position overflow") (checkedAdd r.bitPos 1)
  set { r with bitPos := pos }

/-- `read_bit` (bitreader.rs:34). -/
def readBit : Parse Bool := do
  let r ← get
  let total ← r.totalBits
  if total ≤ r.bitPos then
    if r.zeroPadAfterEof then
      bump
      return false
    fail (.unexpectedEof r.input.length)
  else
    let byte ← index r.input (r.bitPos / 8)
    let shift := 7 - r.bitPos % 8
    bump
    return byte.toNat.testBit shift

/-- The `for _ in 0..n` loop of `read_bits`: `value = (value << 1) | bit` on `u32`. -/
def readBitsLoop : ℕ → ℕ → Parse ℕ
  | 0, v => return v
  | n + 1, v => do
    let b ← readBit
    readBitsLoop n ((2 * v + b.toNat) % 2 ^ 32)

/-- `read_bits` (bitreader.rs:58). -/
def readBits (n : ℕ) : Parse ℕ := do
  if 32 < n then fail (.internalDecodeError "bit read width too large")
  else readBitsLoop n 0

/-- `read_signed` (bitreader.rs:70): the shift pair sign-extends `n` bits to an `i32`. -/
def readSigned (n : ℕ) : Parse ℤ := do
  if n = 0 ∨ 32 ≤ n then fail (.internalDecodeError "signed bit read width too large")
  else
    let raw ← readBits n
    return (BitVec.ofNat n raw).toInt

/-! ## The unread bits -/

def byteBits (b : UInt8) : List Bool := ofNat 8 b.toNat

/-- The bits of a byte slice in reading order. -/
def bitsOf (bytes : List UInt8) : List Bool := bytes.flatMap byteBits

def rest (r : BitReader) : List Bool := (bitsOf r.input).drop r.bitPos

def advance (r : BitReader) (n : ℕ) : BitReader := { r with bitPos := r.bitPos + n }

/-- The slice is short enough for its bit length to be a `usize`. -/
def Sized (r : BitReader) : Prop := r.input.length * 8 < usizeMax

@[simp] theorem length_byteBits (b : UInt8) : (byteBits b).length = 8 := length_ofNat _ _

@[simp] theorem length_bitsOf (bytes : List UInt8) : (bitsOf bytes).length = bytes.length * 8 := by
  induction bytes with
  | nil => rfl
  | cons b bytes ih =>
    simp only [bitsOf, List.flatMap_cons, List.length_append, length_byteBits, List.length_cons] at ih ⊢
    omega

@[simp] theorem advance_zero (r : BitReader) : r.advance 0 = r := rfl

@[simp] theorem advance_advance (r : BitReader) (m n : ℕ) : (r.advance m).advance n = r.advance (m + n) := by
  simp [advance, Nat.add_assoc]

theorem rest_advance (r : BitReader) (n : ℕ) : (r.advance n).rest = r.rest.drop n := by
  simp [rest, advance, Nat.add_comm]

theorem Sized.advance {r : BitReader} (h : r.Sized) (n : ℕ) : (r.advance n).Sized := h

/-- Bit `i` of a slice is bit `7 - i % 8` of byte `i / 8`. -/
theorem getElem?_bitsOf : ∀ (bytes : List UInt8) (i : ℕ),
    (bitsOf bytes)[i]? = bytes[i / 8]?.map fun b => b.toNat.testBit (7 - i % 8)
  | [], i => by simp [bitsOf]
  | b :: bytes, i => by
    have hcons : bitsOf (b :: bytes) = byteBits b ++ bitsOf bytes := by simp [bitsOf]
    rw [hcons]
    by_cases hi : i < 8
    · rw [List.getElem?_append_left (by simpa using hi), Nat.div_eq_of_lt hi, Nat.mod_eq_of_lt hi, byteBits,
        getElem?_ofNat hi]
      simp
    · rw [List.getElem?_append_right (by simpa using hi), length_byteBits, getElem?_bitsOf bytes (i - 8),
        show i / 8 = (i - 8) / 8 + 1 by omega, show i % 8 = (i - 8) % 8 by omega]
      simp

/-! ## Parsers that consume a known bit string -/

/-- `p` consumes exactly `bs`, wherever it is run, and returns `a`. -/
def Reads {α : Type} (p : Parse α) (bs : List Bool) (a : α) : Prop :=
  ∀ r : BitReader, r.Sized → bs <+: r.rest → p r = .ok (a, r.advance bs.length)

theorem bind_run {α β : Type} {p : Parse α} {r r' : BitReader} {a : α} (h : p r = .ok (a, r')) (f : α → Parse β) :
    (p >>= f) r = f a r' := by simp only [bind, StateT.bind, h, Except.bind]

theorem Reads.pure {α : Type} (a : α) : Reads (pure a) [] a := fun r _ _ => by simp [Pure.pure, StateT.pure, Except.pure]

theorem Reads.bind {α β : Type} {p : Parse α} {f : α → Parse β} {bs cs : List Bool} {a : α} {b : β}
    (hp : Reads p bs a) (hf : Reads (f a) cs b) : Reads (p >>= f) (bs ++ cs) b := by
  intro r hr hpre
  have hbs : bs <+: r.rest := (List.prefix_append _ _).trans hpre
  have hcs : cs <+: (r.advance bs.length).rest := by
    obtain ⟨tl, htl⟩ := hpre
    rw [rest_advance, ← htl]
    exact ⟨tl, by simp⟩
  rw [bind_run (hp r hr hbs), hf _ (hr.advance _) hcs, advance_advance, List.length_append]

theorem Reads.seq {α β : Type} {p : Parse α} {f : α → Parse β} {bs cs ds : List Bool} {a : α} {b : β}
    (hp : Reads p bs a) (hf : Reads (f a) cs b) (h : ds = bs ++ cs) : Reads (p >>= f) ds b := h ▸ hp.bind hf

theorem Reads.lift {α : Type} {o : Outcome DstError α} {a : α} (h : o = .ok a) : Reads (liftM o) [] a := by
  intro r _ _
  subst h
  rfl

/-- A loop that reads `bits i` at step `i`, with an invariant on its state. -/
theorem Reads.forRange {σ : Type} (I : ℕ → σ → Prop) (bits : ℕ → List Bool) (f : σ → ℕ → Parse σ) (lo hi : ℕ)
    (hle : lo ≤ hi)
    (hstep : ∀ i, lo ≤ i → i < hi → ∀ s, I i s → ∃ s', Reads (f s i) (bits i) s' ∧ I (i + 1) s') {s : σ} (hs : I lo s) :
    ∃ s', Reads (forRange lo hi s f) ((List.range' lo (hi - lo)).flatMap bits) s' ∧ I hi s' := by
  obtain ⟨n, rfl⟩ : ∃ n, hi = lo + n := ⟨hi - lo, by omega⟩
  clear hle
  simp only [Rust.forRange, Nat.add_sub_cancel_left]
  induction n generalizing lo s with
  | zero => exact ⟨s, by simpa using Reads.pure s, hs⟩
  | succ n ih =>
    obtain ⟨t, ht, hI⟩ := hstep lo le_rfl (by omega) s hs
    rw [show lo + (n + 1) = lo + 1 + n by omega] at hstep ⊢
    obtain ⟨s', hs', hI'⟩ := ih (lo + 1) hI (fun i h1 h2 => hstep i (by omega) h2)
    refine ⟨s', ?_, hI'⟩
    rw [List.range'_succ, List.foldlM_cons, List.flatMap_cons]
    exact ht.bind hs'

/-- A loop that reads nothing. -/
theorem Reads.forRange_silent {σ : Type} (I : ℕ → σ → Prop) (f : σ → ℕ → Parse σ) (lo hi : ℕ) (hle : lo ≤ hi)
    (hstep : ∀ i, lo ≤ i → i < hi → ∀ s, I i s → ∃ s', Reads (f s i) [] s' ∧ I (i + 1) s') {s : σ} (hs : I lo s) :
    ∃ s', Reads (Rust.forRange lo hi s f) [] s' ∧ I hi s' := by
  obtain ⟨s', h, hI⟩ := Reads.forRange I (fun _ => []) f lo hi hle hstep hs
  rw [List.flatMap_eq_nil_iff.2 fun _ _ => rfl] at h
  exact ⟨s', h, hI⟩

theorem readBit_reads (b : Bool) : Reads readBit [b] b := by
  intro r hr hpre
  obtain ⟨tl, htl⟩ := hpre
  have hget : (bitsOf r.input)[r.bitPos]? = some b := by
    have := congrArg (·[0]?) htl
    simpa [rest, eq_comm] using this
  have hlt : r.bitPos < r.input.length * 8 := by
    have := (List.getElem?_eq_some_iff.1 hget).1
    simpa using this
  rw [getElem?_bitsOf] at hget
  obtain ⟨byte, hbyte, hb⟩ := Option.map_eq_some_iff.1 hget
  have hsz : r.input.length * 8 < usizeMax := hr
  have htot : (r.totalBits : Parse ℕ) = pure (r.input.length * 8) := by
    rw [totalBits, checkedMul_of_le hsz.le, okOr_some]
  simp only [readBit, bump, htot, index_of_getElem? hbyte, checkedAdd_of_le (show r.bitPos + 1 ≤ usizeMax by omega),
    okOr_some, bind, StateT.bind, get, getThe, MonadStateOf.get, StateT.get, Except.bind, pure, Except.pure,
    show ¬ r.input.length * 8 ≤ r.bitPos by omega, if_false, StateT.pure, set, StateT.set, hb]
  rfl

theorem hasPhysicalBitsRemaining_run {r : BitReader} (hr : r.Sized) (h : r.rest ≠ []) :
    hasPhysicalBitsRemaining r = .ok (true, r) := by
  have hlt : r.bitPos < r.input.length * 8 := by
    by_contra hge
    exact h (List.drop_eq_nil_of_le (by rw [length_bitsOf]; omega))
  have htot : (r.totalBits : Parse ℕ) = pure (r.input.length * 8) := by
    rw [totalBits, checkedMul_of_le (le_of_lt hr), okOr_some]
  simp only [hasPhysicalBitsRemaining, bind, StateT.bind, get, getThe, MonadStateOf.get, StateT.get, Except.bind, pure,
    Except.pure, htot, StateT.pure, decide_eq_true hlt]

/-- One turn of the loop stays inside the `u32` and inside the bound of the number that is read. -/
theorem shift_bit_fits {v n : ℕ} (b : Bool) (h : (v + 1) * 2 ^ (n + 1) ≤ 2 ^ 32) :
    (2 * v + b.toNat) % 2 ^ 32 = 2 * v + b.toNat ∧ (2 * v + b.toNat + 1) * 2 ^ n ≤ (v + 1) * 2 ^ (n + 1) := by
  have hb : b.toNat ≤ 1 := by cases b <;> simp
  have hle : (2 * v + b.toNat + 1) * 2 ^ n ≤ (v + 1) * 2 ^ (n + 1) := by
    calc (2 * v + b.toNat + 1) * 2 ^ n ≤ (v + 1) * 2 * 2 ^ n :=
          Nat.mul_le_mul_right _ (show 2 * v + b.toNat + 1 ≤ (v + 1) * 2 by omega)
      _ = (v + 1) * 2 ^ (n + 1) := by ring
  refine ⟨Nat.mod_eq_of_lt ?_, hle⟩
  have := Nat.two_pow_pos n
  nlinarith

theorem readBitsLoop_reads : ∀ (bs : List Bool) (v : ℕ), (v + 1) * 2 ^ bs.length ≤ 2 ^ 32 →
    Reads (readBitsLoop bs.length v) bs (v * 2 ^ bs.length + value bs)
  | [], v, _ => by simpa [readBitsLoop] using Reads.pure v
  | b :: bs, v, h => by
    rw [List.length_cons] at h
    obtain ⟨hmod, hle⟩ := shift_bit_fits b h
    have hrest : Reads (readBitsLoop bs.length ((2 * v + b.toNat) % 2 ^ 32)) bs
        ((2 * v + b.toNat) * 2 ^ bs.length + value bs) := by
      rw [hmod]
      exact readBitsLoop_reads bs _ (hle.trans h)
    have key := (readBit_reads b).bind (f := fun b => readBitsLoop bs.length ((2 * v + b.toNat) % 2 ^ 32)) hrest
    have hval : v * 2 ^ (b :: bs).length + value (b :: bs) = (2 * v + b.toNat) * 2 ^ bs.length + value bs := by
      rw [value_cons, List.length_cons, pow_succ]
      ring
    rw [hval]
    exact key

/-- `read_bits` on a string of its own length returns the number the string denotes. -/
theorem readBits_reads (bs : List Bool) (h : bs.length ≤ 32) : Reads (readBits bs.length) bs (value bs) := by
  have hle : (0 + 1) * 2 ^ bs.length ≤ 2 ^ 32 := by
    rw [Nat.zero_add, Nat.one_mul]
    exact Nat.pow_le_pow_right (by omega) h
  have := readBitsLoop_reads bs 0 hle
  simpa [readBits, show ¬ 32 < bs.length by omega] using this

/-- A field written with `ofNat` is read back. -/
theorem readBits_ofNat {n v : ℕ} (hn : n ≤ 32) (hv : v < 2 ^ n) : Reads (readBits n) (ofNat n v) v := by
  have := readBits_reads (ofNat n v) (by simpa using hn)
  rwa [length_ofNat, value_ofNat hv] at this

theorem readSigned_ofNat {n : ℕ} {z : ℤ} (h0 : 0 < n) (hn : n < 32) (hlo : -2 ^ (n - 1) ≤ z) (hhi : z < 2 ^ (n - 1)) :
    Reads (readSigned n) (ofNat n (z % 2 ^ n).toNat) z := by
  have hpos : (0 : ℤ) < 2 ^ n := by positivity
  have hlt : (z % 2 ^ n).toNat < 2 ^ n := by
    have h1 := Int.emod_lt_of_pos z hpos
    have h2 := Int.emod_nonneg z hpos.ne'
    zify
    rw [Int.toNat_of_nonneg h2]
    exact_mod_cast h1
  have key := (readBits_ofNat (show n ≤ 32 by omega) hlt).bind (f := fun raw => pure (BitVec.ofNat n raw).toInt)
    (Reads.pure _)
  have hz : (BitVec.ofNat n (z % 2 ^ n).toNat).toInt = z := by
    have h2 := Int.emod_nonneg z hpos.ne'
    have hcast : ((z % 2 ^ n).toNat : ℤ) = z % 2 ^ n := Int.toNat_of_nonneg h2
    rw [BitVec.toInt_ofNat', hcast, show (2 : ℤ) ^ n = ((2 ^ n : ℕ) : ℤ) by push_cast; rfl, Int.emod_bmod]
    have hhalf : (2 : ℤ) ^ n = 2 * 2 ^ (n - 1) := by rw [← pow_succ']; congr 1; omega
    apply Int.bmod_eq_of_le <;> push_cast <;> rw [hhalf] <;> omega
  rw [hz] at key
  simpa [readSigned, show ¬ (n = 0 ∨ 32 ≤ n) by omega] using key

/-! ## One bit of any reader -/

section Meets

variable {E : Fault DstError → Prop} {r : BitReader}

theorem okOr_meets {α : Type} {Q : α → BitReader → Prop} {e : DstError} {o : Option α} (h : ∀ a, o = some a → Q a r)
    (he : o = none → E (.err e)) : Meets E Q (okOr e o) r := by
  cases o with
  | some a => exact Meets.pure (h a rfl)
  | none => exact Meets.throw (he rfl)

theorem bump_meets (hpos : usizeMax < r.bitPos + 1 → E (.err (.internalDecodeError "bit reader position overflow"))) :
    Meets E (fun _ t => t = r.advance 1) bump r := by
  unfold bump
  apply Meets.get_bind
  refine (okOr_meets (Q := fun pos t => pos = r.bitPos + 1 ∧ t = r) ?_ ?_).bind ?_
  · intro pos h
    rw [checkedAdd, Option.ite_none_right_eq_some] at h
    exact ⟨(Option.some.inj h.2).symm, rfl⟩
  · intro h
    rw [checkedAdd, ite_eq_right_iff] at h
    refine hpos ?_
    by_contra hle
    cases h (by omega)
  · rintro _ t ⟨rfl, ht⟩
    rw [ht]
    exact Meets.set rfl

/-- What one bit of the reader is, and which errors there are. -/
theorem readBit_meets
    (hlen : usizeMax < r.input.length * 8 → E (.err (.internalDecodeError "bit reader input length overflow")))
    (hpos : usizeMax < r.bitPos + 1 → E (.err (.internalDecodeError "bit reader position overflow")))
    (heof : r.zeroPadAfterEof = false → E (.err (.unexpectedEof r.input.length))) :
    Meets E (fun b t => t = r.advance 1 ∧ (r.zeroPadAfterEof = false → [b] <+: r.rest)) readBit r := by
  unfold readBit
  apply Meets.get_bind
  refine (okOr_meets (Q := fun total t => total = r.input.length * 8 ∧ t = r) ?_ ?_).bind ?_
  · intro total h
    rw [checkedMul, Option.ite_none_right_eq_some] at h
    exact ⟨(Option.some.inj h.2).symm, rfl⟩
  · intro h
    rw [checkedMul, ite_eq_right_iff] at h
    refine hlen ?_
    by_contra hle
    cases h (by omega)
  · rintro _ t ⟨rfl, ht⟩
    rw [ht]
    by_cases hend : r.input.length * 8 ≤ r.bitPos
    · rw [if_pos hend]
      cases hpad : r.zeroPadAfterEof
      · exact Meets.throw (heof hpad)
      · exact (bump_meets hpos).bind fun _ t ht => Meets.pure ⟨ht, fun h => absurd h (by decide)⟩
    · rw [if_neg hend]
      have hbyte : r.input[r.bitPos / 8]? = some r.input[r.bitPos / 8] := List.getElem?_eq_getElem (by omega)
      rw [index_of_getElem? hbyte, pure_bind]
      refine (bump_meets hpos).bind fun _ t ht => Meets.pure ⟨ht, fun _ => ?_⟩
      have hrest : r.rest[0]? = some (r.input[r.bitPos / 8].toNat.testBit (7 - r.bitPos % 8)) := by
        rw [rest, List.getElem?_drop, Nat.add_zero, getElem?_bitsOf, hbyte]
        rfl
      obtain ⟨tl, htl⟩ := List.head?_eq_some_iff.1 (by rwa [List.head?_eq_getElem?])
      exact ⟨tl, by rw [htl]; rfl⟩

end Meets

end BitReader
end Dst
