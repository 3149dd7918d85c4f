import Tonepoet.Dst.ArithmeticCoder

/-!
# Coding and decoding a list of bits (dst/encoder.rs:1677-1795, dst/decoder.rs:1029-1096)

The encoder again, with the two places where a run of it could stop or break: the `u32` counter of
pending ones, and the `bits.insert(0, 1)` behind a carry that passes the first bit. The second is never
reached. What the encoder returns the decoder reads back, bit for bit, to its end.
-/

namespace Dst

open Rust BitString BitReader IntervalCoder

inductive CoderStop where
  /-- `self.pending_ones += 1` leaves the `u32`. -/
  | pendingOnesOverflow
  /-- `bits.insert(0, 1)` in `propagate_carry`. -/
  | carryInsert
  deriving DecidableEq, Repr

namespace ArithmeticBitEncoder

/-- `emit_bit` (encoder.rs:1735). -/
def emitBitChecked (e : ArithmeticBitEncoder) (bit : Bool) : Except CoderStop ArithmeticBitEncoder :=
  if e.hasPending = true ∧ bit = true ∧ 2 ^ 32 ≤ e.pendingOnes + 1 then .error .pendingOnesOverflow else .ok (e.emitBit bit)

/-- `apply_carry` (encoder.rs:1762). The finished bits keep their number unless a bit is inserted. -/
def applyCarryChecked (e : ArithmeticBitEncoder) : Except CoderStop ArithmeticBitEncoder :=
  if (e.hasPending = false ∨ e.pendingBit = true) ∧ (propagateCarry e.bits).length ≠ e.bits.length then .error .carryInsert
  else .ok e.applyCarry

/-- The carry of `shift_out`. -/
def carryChecked (e : ArithmeticBitEncoder) : Except CoderStop ArithmeticBitEncoder :=
  if arithmeticOne ≤ e.c then applyCarryChecked { e with c := e.c - arithmeticOne } else .ok e

/-- `shift_out` (encoder.rs:1725). -/
def shiftOutChecked (e : ArithmeticBitEncoder) : Except CoderStop ArithmeticBitEncoder := do
  let e ← e.carryChecked
  let bit := (e.c >>> (arithmeticBits - 1)) &&& 1
  let e ← e.emitBitChecked (bit == 1)
  .ok { e with c := (e.c <<< 1) &&& (arithmeticOne - 1) }

def shiftWhileChecked : ℕ → ArithmeticBitEncoder → Except CoderStop ArithmeticBitEncoder
  | 0, e => .ok e
  | fuel + 1, e =>
    if e.a < arithmeticHalf then do
      let shifted ← e.shiftOutChecked
      shiftWhileChecked fuel { shifted with a := e.a <<< 1 }
    else .ok e

/-- `encode_bit` (encoder.rs:1698). -/
def encodeBitChecked (e : ArithmeticBitEncoder) (bit : Bool) (probabilityZero : ℕ) :
    Except CoderStop ArithmeticBitEncoder :=
  shiftWhileChecked arithmeticBits (e.narrowed bit probabilityZero)

/-- `finish` (encoder.rs:1717). -/
def finishChecked (e : ArithmeticBitEncoder) : Except CoderStop (List Bool) := do
  let e ← (List.range arithmeticBits).foldlM (fun e _ => e.shiftOutChecked) e
  .ok e.flushPending.bits

/-- `encode_bit` for each pair, then `finish`. -/
def codeBits (ps : List (Bool × ℕ)) : Except CoderStop (List Bool) := do
  let e ← ps.foldlM (fun e x => e.encodeBitChecked x.1 x.2) new
  e.finishChecked

/-! ## The only stop is the counter's -/

/-- A run that gives `a`, or stops at the counter with `2 ^ 32` bits emitted of at most `n`. -/
def Counts {α : Type} (n : ℕ) (x : Except CoderStop α) (a : α) : Prop :=
  x = .ok a ∨ x = .error .pendingOnesOverflow ∧ 2 ^ 32 ≤ n

variable {e : ArithmeticBitEncoder} {low n total : ℕ}

theorem Counts.bind {α β : Type} {x : Except CoderStop α} {a : α} {f : α → Except CoderStop β} {b : β}
    (hx : Counts total x a) (hf : Counts total (f a) b) : Counts total (x >>= f) b := by
  rcases hx with rfl | ⟨rfl, hlong⟩
  · exact hf
  · exact .inr ⟨rfl, hlong⟩

theorem Counts.ok {α : Type} (a : α) : Counts total (.ok a) a := .inl rfl

theorem emitBitChecked_counts (e : ArithmeticBitEncoder) (bit : Bool) (htotal : e.emitted.length ≤ total) :
    Counts total (e.emitBitChecked bit) (e.emitBit bit) := by
  unfold emitBitChecked
  split
  · next hstop =>
    obtain ⟨hpending, -, hones⟩ := hstop
    refine .inr ⟨rfl, ?_⟩
    simp only [emitted, hpending, if_true, List.length_append, List.length_singleton, List.length_replicate] at htotal
    omega
  · exact .ok _

/-- **The carry stays inside the emitted bits.** -/
theorem applyCarryChecked_eq (h : value e.emitted + 1 < 2 ^ e.emitted.length) : applyCarryChecked e = .ok e.applyCarry := by
  refine if_neg ?_
  rintro ⟨hpast, hlength⟩
  exact hlength (propagateCarry_spec (room_finished h hpast)).1

theorem shiftOutChecked_counts (h : Digits e low n) (hc : e.c < 8192) (hlow : low < 2 ^ (12 + n)) (htotal : n ≤ total) :
    Counts total e.shiftOutChecked e.shiftOut := by
  have hcarry : e.carryChecked =
      .ok (if arithmeticOne ≤ e.c then { e with c := e.c - arithmeticOne }.applyCarry else e) := by
    unfold carryChecked
    split
    · next hrun =>
      obtain ⟨k, hk⟩ : ∃ k, e.c - arithmeticOne = k := ⟨_, rfl⟩
      rw [hk]
      exact applyCarryChecked_eq (e := { e with c := k }) (h.room hlow hrun)
    · rfl
  have hlen := (carry_digits h hc hlow).1.length_eq
  rw [shiftOutChecked, hcarry]
  refine (Counts.ok _).bind ((emitBitChecked_counts _ _ ?_).bind (.ok _))
  rw [hlen]
  exact htotal

theorem shiftWhileChecked_counts : ∀ (fuel : ℕ) {e : ArithmeticBitEncoder} {s : State}, Emits e s → 0 < s.width →
    s.low + s.width ≤ 2 ^ (12 + s.shifts) → s.shifts + renorm 12 s.width ≤ total →
    Counts total (shiftWhileChecked fuel e) (shiftWhile fuel e)
  | 0, _, _, _, _, _, _ => .ok _
  | fuel + 1, e, s, h, h0, hlow, htotal => by
    have hhalf : arithmeticHalf = 2048 := rfl
    have hw := h.width
    have hroom := h.room
    unfold shiftWhileChecked shiftWhile
    rw [hhalf]
    by_cases ha : e.a < 2048
    · rw [if_pos ha, if_pos ha]
      obtain ⟨hstep, hlow'⟩ := shift_emits h ha hlow h0
      have hr := renorm_double h0 (by omega)
      have hwid : (s.shift 1).width = s.width * 2 := by simp [State.shift]
      have hshifts : (s.shift 1).shifts = s.shifts + 1 := rfl
      refine (shiftOutChecked_counts h.digits (by omega) (by omega) (by omega)).bind ?_
      exact shiftWhileChecked_counts fuel hstep (by omega) hlow' (by rw [hwid, hshifts]; omega)
    · rw [if_neg ha, if_neg ha]
      exact .ok _

theorem encodeBitChecked_counts {s : State} (h : Emits e s) (hs : Normal 12 s.width)
    (hlow : s.low + s.width ≤ 2 ^ (12 + s.shifts)) {bit : Bool} {p : ℕ} (h1 : 1 ≤ p) (h2 : p ≤ 128)
    (htotal : (step 12 s (symbol bit p)).shifts ≤ total) : Counts total (e.encodeBitChecked bit p) (e.encodeBit bit p) := by
  obtain ⟨hnar, hw0, hhi⟩ := narrow_emits (b := bit) h hs hlow h1 h2
  exact shiftWhileChecked_counts _ hnar hw0 hhi htotal

theorem encodeAllChecked_counts : ∀ {ps : List (Bool × ℕ)}, Legal ps → ∀ {e : ArithmeticBitEncoder} {s : State}, Emits e s →
    Normal 12 s.width → s.low + s.width ≤ 2 ^ (12 + s.shifts) → (encode 12 s (symbols ps)).shifts ≤ total →
    Counts total (ps.foldlM (fun e x => e.encodeBitChecked x.1 x.2) e) (e.encodeAll ps)
  | [], _, _, _, _, _, _, _ => .ok _
  | x :: ps, h, e, s, he, hs, hlow, htotal => by
    obtain ⟨h1, h2⟩ := h x (by simp)
    have hrest : Legal ps := fun y hy => h y (by simp [hy])
    have hfit := symbol_fits x.1 h1 h2
    have hnormal := step_normal (by omega) hs hfit
    have hlater := encode_within (by omega) (symbols_fit hrest) hnormal
    rw [List.foldlM_cons]
    refine (encodeBitChecked_counts he hs hlow h1 h2 (hlater.shifts_le.trans htotal)).bind ?_
    exact encodeAllChecked_counts hrest (encodeBit_emits he hs hlow h1 h2) hnormal (step_low_le hs hfit hlow) htotal

theorem finishChecked_counts {t : State} (h : Emits e t) (h0 : 0 < t.width)
    (hlow : t.low + t.width ≤ 2 ^ (12 + t.shifts)) (htotal : 12 + t.shifts ≤ total) :
    Counts total e.finishChecked e.finish := by
  have hshifts : ∀ k ≤ 12, Counts total ((List.range k).foldlM (fun e _ => e.shiftOutChecked) e) (shiftOut^[k] e) := by
    intro k hk
    induction k with
    | zero => exact .ok _
    | succ k ih =>
      obtain ⟨hd, hc, hlt, -⟩ := iterate_shiftOut_digits h h0 hlow k
      rw [List.range_succ, List.foldlM_append, Function.iterate_succ_apply']
      refine (ih (by omega)).bind ?_
      rw [List.foldlM_cons]
      exact (shiftOutChecked_counts hd hc hlt (by omega)).bind (.ok _)
  exact (hshifts 12 le_rfl).bind (.ok _)

/-- A run over legal pairs. -/
theorem codeBits_counts {ps : List (Bool × ℕ)} (h : Legal ps) :
    Counts (12 + (encode 12 (start 12) (symbols ps)).shifts) (codeBits ps) (new.encodeAll ps).finish := by
  have hnormal := start_normal (w := 12) (by omega)
  have hlow : (start 12).low + (start 12).width ≤ 2 ^ (12 + (start 12).shifts) := by decide
  have hemits := encodeAll_emits h new_emits hnormal hlow
  have hwidth := (encode_normal (w := 12) (by omega) (symbols_fit h) hnormal).1
  have hend := encode_low_lt (w := 12) (by omega) (symbols_fit h)
  exact (encodeAllChecked_counts h new_emits hnormal hlow (by omega)).bind
    (finishChecked_counts hemits (by omega) hend.le le_rfl)

/-- What a run returns is a code of the final interval. -/
theorem codeBits_codes {ps : List (Bool × ℕ)} (h : Legal ps) {bits : List Bool} (hbits : codeBits ps = .ok bits) :
    Codes 12 bits (encode 12 (start 12) (symbols ps)) := by
  have hnormal := start_normal (w := 12) (by omega)
  have hlow : (start 12).low + (start 12).width ≤ 2 ^ (12 + (start 12).shifts) := by decide
  have hemits := encodeAll_emits h new_emits hnormal hlow
  have hwidth := (encode_normal (w := 12) (by omega) (symbols_fit h) hnormal).1
  have hend := encode_low_lt (w := 12) (by omega) (symbols_fit h)
  have hcodes := finish_codes hemits (by omega) hend.le
  rcases codeBits_counts h with hok | ⟨hstop, -⟩
  · rwa [← Except.ok.inj (hbits.symm.trans hok)] at hcodes
  · rw [hstop] at hbits
    cases hbits

end ArithmeticBitEncoder

namespace ArithmeticCoder

/-- `get` for each probability. -/
def getAll : ArithmeticCoder → List ℕ → Parse (List Bool × ArithmeticCoder)
  | s, [] => pure ([], s)
  | s, p :: ps => do
    let (bit, s) ← s.get p
    let (bits, s) ← s.getAll ps
    pure (bit :: bits, s)

/-- A decoder that tracks the encoder reads the bits that are still to come, and the code to its end. -/
theorem getAll_reads {code : List Bool} {t : State} (hcodes : Codes 12 code t) : ∀ {ps : List (Bool × ℕ)},
    ArithmeticBitEncoder.Legal ps → ∀ {s : State} {d : Decoder}, Normal 12 s.width →
    t = encode 12 s (ArithmeticBitEncoder.symbols ps) → Tracks 12 code s d →
    ∃ d', Reads ((ofDecoder d).getAll (ps.map Prod.snd)) (code.drop d.pos) (ps.map Prod.fst, d')
  | [], _, s, d, _, ht, hd => by
    have hend : code.drop d.pos = [] := by
      rw [List.drop_eq_nil_iff, hcodes.length_eq, hd.pos, ht]
      rfl
    rw [hend]
    exact ⟨_, Reads.pure _⟩
  | (bit, p) :: ps, h, s, d, hs, ht, hd => by
    obtain ⟨h1, h2⟩ := h (bit, p) (by simp)
    have hrest : ArithmeticBitEncoder.Legal ps := fun y hy => h y (by simp [hy])
    have hnormal := step_normal (by omega) hs (ArithmeticBitEncoder.symbol_fits bit h1 h2)
    have hlater : Within t (step 12 s (ArithmeticBitEncoder.symbol bit p)) := by
      rw [ht]
      exact encode_within (by omega) (ArithmeticBitEncoder.symbols_fit hrest) hnormal
    obtain ⟨d', hread, hpos, hd'⟩ := get_symbol h1 h2 hcodes hs hlater hd
    obtain ⟨d'', hreads⟩ := getAll_reads hcodes hrest hnormal ht hd'
    refine ⟨d'', hread.seq (hreads.seq (Reads.pure _) (List.append_nil _).symm) ?_⟩
    -- the bits of this `get` and those behind it
    conv_rhs => rw [show d'.pos = d.pos + (d'.pos - d.pos) by omega, ← List.drop_drop, Nat.add_sub_cancel_left]
    rw [List.take_append_drop]

end ArithmeticCoder

/-- **The coder is invertible.** A run over legal pairs returns bits, or the counter of pending ones
overflows, which takes `2 ^ 32` emitted bits; `bits.insert` is never reached. From any reader at the bits
returned, a new decoder with the same probabilities gives the coded bits back and consumes the bits
returned to the last one. -/
theorem coding_roundTrip (ps : List (Bool × ℕ)) (h : ∀ x ∈ ps, 1 ≤ x.2 ∧ x.2 ≤ 128) :
    ((∃ bits, ArithmeticBitEncoder.codeBits ps = .ok bits) ∨
      ArithmeticBitEncoder.codeBits ps = .error .pendingOnesOverflow ∧ 2 ^ 32 ≤ 12 + 11 * ps.length) ∧
    ∀ bits, ArithmeticBitEncoder.codeBits ps = .ok bits → ∀ r : BitReader, r.Sized → bits <+: r.rest →
      ∃ coder, (do
          let coder ← ArithmeticCoder.new
          coder.getAll (ps.map Prod.snd)) r =
        .ok ((ps.map Prod.fst, coder), { r.advance bits.length with zeroPadAfterEof := true }) := by
  constructor
  · have hshifts := encode_shifts_le (w := 12) (ArithmeticBitEncoder.symbols ps) (start 12)
    have hlen : (ArithmeticBitEncoder.symbols ps).length = ps.length := List.length_map _
    rcases ArithmeticBitEncoder.codeBits_counts h with hok | ⟨hstop, hlong⟩
    · exact .inl ⟨_, hok⟩
    · refine .inr ⟨hstop, hlong.trans ?_⟩
      rw [hlen] at hshifts
      simp only [start] at hshifts
      simp only [start]
      omega
  · intro bits hbits r hr hfront
    have hcodes := ArithmeticBitEncoder.codeBits_codes h hbits
    have hlength := hcodes.length_eq
    have htake : (bits.take 12).length = 12 := by
      rw [List.length_take, hlength]
      omega
    obtain ⟨tl, htl⟩ := hfront
    have hnew := ArithmeticCoder.new_run hr (bits.take 12) htake ⟨bits.drop 12 ++ tl, by
      rw [← List.append_assoc, List.take_append_drop, htl]⟩
    obtain ⟨d, hreads⟩ := ArithmeticCoder.getAll_reads hcodes h (start_normal (by omega)) rfl (start_tracks 12 bits)
    refine ⟨d, ?_⟩
    rw [bind_run hnew]
    have hrest : (bits.drop 12) <+: ({ r.advance 12 with zeroPadAfterEof := true } : BitReader).rest := by
      refine ⟨tl, ?_⟩
      rw [show ({ r.advance 12 with zeroPadAfterEof := true } : BitReader).rest = r.rest.drop 12 from rest_advance r 12,
        ← htl, List.drop_append_of_le_length (by omega)]
    have hrun := hreads _ (show ({ r.advance 12 with zeroPadAfterEof := true } : BitReader).Sized from hr) hrest
    have hsum : 12 + (bits.drop 12).length = bits.length := by
      rw [List.length_drop]
      omega
    refine hrun.trans (congrArg (fun r' => Except.ok ((ps.map Prod.fst, d), r')) ?_)
    change BitReader.mk r.input (r.bitPos + 12 + (bits.drop 12).length) true =
      BitReader.mk r.input (r.bitPos + bits.length) true
    rw [Nat.add_assoc, hsum]

/-- Two bits, coded in twenty. -/
theorem coding_roundTrip_pair : ∃ coder, (do
      let coder ← ArithmeticCoder.new
      coder.getAll [64, 1]) (BitReader.new [0xC3, 0x30, 0x00]) =
    .ok (([true, false], coder), ⟨[0xC3, 0x30, 0x00], 20, true⟩) := by
  have hbits : ArithmeticBitEncoder.codeBits [(true, 64), (false, 1)] =
      .ok ((bitsOf [0xC3, 0x30, 0x00]).take 20) := by rfl
  have hfront : (bitsOf [0xC3, 0x30, 0x00]).take 20 <+: (BitReader.new [0xC3, 0x30, 0x00]).rest := List.take_prefix _ _
  have hsized : (BitReader.new [0xC3, 0x30, 0x00]).Sized := show 3 * 8 < usizeMax by decide
  obtain ⟨coder, hrun⟩ := (coding_roundTrip [(true, 64), (false, 1)] (by decide)).2 _ hbits _ hsized hfront
  exact ⟨coder, hrun⟩

/-! ## A long run of pending ones -/

namespace ArithmeticBitEncoder

/-- The encoder in a run of zeros of probability 64: every further one adds two pending ones. -/
def onesRun (k : ℕ) : ArithmeticBitEncoder := ⟨3840, 256, List.replicate 11 true, false, k, true⟩

theorem shiftOutChecked_one (bits : List Bool) {a c k : ℕ} (hlo : 2048 ≤ c) (hhi : c < 4096) (hk : k + 1 < 2 ^ 32) :
    shiftOutChecked ⟨a, c, bits, false, k, true⟩ = .ok ⟨a, (c <<< 1) &&& (arithmeticOne - 1), bits, false, k + 1, true⟩ := by
  have hcarry : carryChecked ⟨a, c, bits, false, k, true⟩ = .ok ⟨a, c, bits, false, k, true⟩ :=
    if_neg (show ¬ arithmeticOne ≤ c by rw [show arithmeticOne = 4096 from rfl]; omega)
  have hbit : (c >>> (arithmeticBits - 1)) &&& 1 = 1 := by
    rw [Nat.and_one_is_mod, Nat.shiftRight_eq_div_pow, show arithmeticBits - 1 = 11 from rfl]
    omega
  have hemit : emitBitChecked ⟨a, c, bits, false, k, true⟩ true = .ok ⟨a, c, bits, false, k + 1, true⟩ :=
    if_neg fun hstop => absurd (show 2 ^ 32 ≤ k + 1 from hstop.2.2) (by omega)
  rw [shiftOutChecked, hcarry]
  simp only [bind, Except.bind, hbit, beq_self_eq_true, hemit]

/-- The first of the two shifts. -/
theorem encodeBitChecked_half {k : ℕ} (hk : k + 1 < 2 ^ 32) : encodeBitChecked (onesRun k) false 64 =
    shiftWhileChecked 11 ⟨1920, 2176, List.replicate 11 true, false, k + 1, true⟩ := by
  have hfirst := shiftOutChecked_one (List.replicate 11 true) (a := 960) (c := 3136) (k := k) (by decide) (by decide) hk
  have hsplit : splitWidth 64 3840 = 960 := by decide
  have hnarrowed : (onesRun k).narrowed false 64 = ⟨960, 3136, List.replicate 11 true, false, k, true⟩ := by
    simp only [narrowed, onesRun, if_true, hsplit]
  rw [encodeBitChecked, hnarrowed, show arithmeticBits = 11 + 1 from rfl, shiftWhileChecked,
    if_pos (show 960 < arithmeticHalf by decide), hfirst]
  rfl

theorem encodeBitChecked_onesRun {k : ℕ} (hk : k + 2 < 2 ^ 32) :
    encodeBitChecked (onesRun k) false 64 = .ok (onesRun (k + 2)) := by
  have hsecond := shiftOutChecked_one (List.replicate 11 true) (a := 1920) (c := 2176) (k := k + 1) (by decide)
    (by decide) hk
  rw [encodeBitChecked_half (by omega), shiftWhileChecked, if_pos (show 1920 < arithmeticHalf by decide), hsecond]
  simp only [bind, Except.bind]
  rw [shiftWhileChecked, if_neg (show ¬ 1920 <<< 1 < arithmeticHalf by decide)]
  rfl

theorem encodeBitChecked_overflow : encodeBitChecked (onesRun (2 ^ 32 - 2)) false 64 = .error .pendingOnesOverflow := by
  have hstop : shiftOutChecked ⟨1920, 2176, List.replicate 11 true, false, 2 ^ 32 - 2 + 1, true⟩ =
      .error .pendingOnesOverflow := by rfl
  rw [encodeBitChecked_half (by decide), shiftWhileChecked, if_pos (show 1920 < arithmeticHalf by decide), hstop]
  rfl

theorem foldlM_onesRun : ∀ (n k : ℕ), k + 2 * n < 2 ^ 32 →
    (List.replicate n (false, 64)).foldlM (fun e x => encodeBitChecked e x.1 x.2) (onesRun k) = .ok (onesRun (k + 2 * n))
  | 0, _, _ => rfl
  | n + 1, k, h => by
    rw [List.replicate_succ, List.foldlM_cons, encodeBitChecked_onesRun (by omega)]
    refine (foldlM_onesRun n (k + 2) (by omega)).trans ?_
    rw [show k + 2 + 2 * n = k + 2 * (n + 1) by omega]

/-- Not every run returns bits: `2 ^ 31 + 6` zeros of probability 64 leave `2 ^ 32` ones pending. -/
theorem codeBits_overflow : (∀ x ∈ List.replicate (6 + (2 ^ 31 - 1) + 1) (false, 64), 1 ≤ x.2 ∧ x.2 ≤ 128) ∧
    codeBits (List.replicate (6 + (2 ^ 31 - 1) + 1) (false, 64)) = .error .pendingOnesOverflow := by
  constructor
  · intro x hx
    rw [List.eq_of_mem_replicate hx]
    decide
  · have hstart : (List.replicate 6 (false, 64)).foldlM (fun e x => encodeBitChecked e x.1 x.2) new = .ok (onesRun 0) := by
      rfl
    rw [codeBits, List.replicate_add, List.replicate_add, List.foldlM_append, List.foldlM_append, hstart]
    have hrun := foldlM_onesRun (2 ^ 31 - 1) 0 (by decide)
    have hlast : (List.replicate 1 (false, 64)).foldlM (fun e x => encodeBitChecked e x.1 x.2)
        (onesRun (0 + 2 * (2 ^ 31 - 1))) = .error .pendingOnesOverflow := by
      rw [List.replicate_one, List.foldlM_cons, show 0 + 2 * (2 ^ 31 - 1) = 2 ^ 32 - 2 by decide, encodeBitChecked_overflow]
      rfl
    change Except.bind (Except.bind (Except.bind (Except.ok (onesRun 0)) _) _) _ = _
    rw [Except.bind, hrun, Except.bind, hlast]
    rfl

end ArithmeticBitEncoder

end Dst
