import Tonepoet.Dst.Segments

/-!
# What a segment table says (dst/decoder.rs:398-516, 587-609)

`ChannelSegments` is the segment record of one channel as the bits have it: a resolution and the
lengths of the non-final segments in units of it. `SegmentData.read` accepts a flag and one record for
every channel (`read_meets`); what it stores is the lengths of each record and one resolution, the last
record's. So the stored table has the geometry its records were checked with exactly when every channel
that has lengths uses that resolution (`keepsGeometry_iff`).
-/

namespace Dst

open Rust BitString BitReader Hoare

/-! ## The record of a channel -/

/-- The non-final segments of a channel, in units of its own resolution. -/
structure ChannelSegments where
  resolution : ℕ
  units : List ℕ

namespace ChannelSegments

/-- The lengths in bits of the non-final segments. -/
def lengths (c : ChannelSegments) : List ℕ := c.units.map fun u => c.resolution * 8 * u

/-- The fields of the segments that are left; the resolution stands before the first length. -/
def fields (maxResolution resolution : ℕ) : Bool → ℕ → List ℕ → List Bool
  | _, _, [] => [true]
  | resolutionRead, budget, u :: us =>
    false :: ((if resolutionRead then [] else ofNat (Nat.size (maxResolution % 2 ^ 32)) resolution) ++
      (ofNat (Nat.size (budget / resolution % 2 ^ 32)) u ++ fields maxResolution resolution true (budget - resolution * u) us))

/-- The bits of a record. -/
def bits (frameBytes minSegmentBits : ℕ) (c : ChannelSegments) : List Bool :=
  fields (frameBytes - minSegmentBits / 8) c.resolution false (frameBytes - minSegmentBits / 8) c.units

/-- What is checked of a record: every length has the minimum, and what they leave of the frame has it too.
    A record without lengths has no resolution field and counts as one with the resolution 1. -/
structure Checked (frameBytes minSegmentBits : ℕ) (c : ChannelSegments) : Prop where
  plain : c.units = [] → c.resolution = 1
  long : ∀ len ∈ c.lengths, minSegmentBits ≤ len
  room : c.lengths.sum + minSegmentBits ≤ frameBytes * 8

end ChannelSegments

/-- The bits of a table: one record for all channels or one for each. -/
def tableBits (frameBytes minSegmentBits : ℕ) (same : Bool) (records : List ChannelSegments) : List Bool :=
  same :: records.flatMap (ChannelSegments.bits frameBytes minSegmentBits)

/-- The record of channel `ch`. -/
def recordOf (same : Bool) (records : List ChannelSegments) (ch : ℕ) : Option ChannelSegments :=
  if same then records[0]? else records[ch]?

/-- `frame` bits of a channel are cut at the lengths that were checked: the boundaries the decoder
    computes are their sums, and every segment, the last one included, has the minimum length. -/
structure SegmentData.Partitions (data : SegmentData) (frameBits minSegmentBits ch : ℕ) (lengths : List ℕ) : Prop where
  count : data.segmentCount[ch]? = some (lengths.length + 1)
  used : ∀ seg (h : seg < lengths.length), data.segmentLenBits ch seg = .ok lengths[seg]
  segment : ∀ seg ≤ lengths.length, ∃ stop,
    data.segmentEndFromStart ch seg (lengths.length + 1) (lengths.take seg).sum frameBits = .ok stop ∧
      stop = (if seg = lengths.length then frameBits else (lengths.take (seg + 1)).sum) ∧
      (lengths.take seg).sum + minSegmentBits ≤ stop

/-- The table has the geometry that was checked. -/
def SegmentData.KeepsGeometry (data : SegmentData) (channels frameBytes minSegmentBits : ℕ) (same : Bool)
    (records : List ChannelSegments) : Prop :=
  ∀ ch < channels, ∃ c, recordOf same records ch = some c ∧
    data.Partitions (frameBytes * 8) minSegmentBits ch c.lengths

/-- Every channel that has lengths has them in the unit of the last record. -/
def OneResolution (records : List ChannelSegments) : Prop :=
  ∀ c ∈ records, c.units ≠ [] → records.getLast?.map (·.resolution) = some c.resolution

namespace SegmentKind

def maxSegments : SegmentKind → ℕ
  | filter => maxFilterSegments
  | probability => maxProbabilitySegments

def minSegmentBits : SegmentKind → ℕ
  | filter => minFilterSegmentBits
  | probability => minProbabilitySegmentBits

end SegmentKind

/-! ## Reading -/

/-- The reader has moved over exactly these bits. -/
def Consumed (r : BitReader) (bs : List Bool) (t : BitReader) : Prop := t = r.advance bs.length ∧ bs <+: r.rest

theorem Consumed.nil (r : BitReader) : Consumed r [] r := ⟨rfl, List.nil_prefix⟩

theorem Consumed.append {r s t : BitReader} {as bs : List Bool} (ha : Consumed r as s) (hb : Consumed s bs t) :
    Consumed r (as ++ bs) t := by
  obtain ⟨rfl, tl, htl⟩ := ha
  obtain ⟨rfl, hb⟩ := hb
  refine ⟨by rw [advance_advance, List.length_append], ?_⟩
  rw [rest_advance, ← htl, List.drop_left] at hb
  rw [← htl]
  exact (List.prefix_append_right_inj as).2 hb

/-- Partial correctness: the reader does not pad, and an accepted run satisfies `Q`. -/
def Accepts {α : Type} (Q : α → BitReader → Prop) (p : Parse α) (r : BitReader) : Prop :=
  Meets (fun _ => True) (fun a t => t.zeroPadAfterEof = false ∧ Q a t) p r

namespace Accepts

variable {α β : Type} {r : BitReader}

theorem bind {Q : α → BitReader → Prop} {R : β → BitReader → Prop} {p : Parse α} {f : α → Parse β} (h : Accepts Q p r)
    (hf : ∀ a t, t.zeroPadAfterEof = false → Q a t → Accepts R (f a) t) : Accepts R (p >>= f) r :=
  Meets.bind h fun a t ht => hf a t ht.1 ht.2

theorem pure {Q : α → BitReader → Prop} {a : α} (hr : r.zeroPadAfterEof = false) (h : Q a r) :
    Accepts Q (Pure.pure a) r := ⟨hr, h⟩

theorem fail {Q : α → BitReader → Prop} (e : DstError) : Accepts Q (Rust.fail e) r := trivial

theorem index_bind {R : β → BitReader → Prop} {xs : List α} {i : ℕ} {f : α → Parse β}
    (h : ∀ a, xs[i]? = some a → Accepts R (f a) r) : Accepts R (index xs i >>= f) r := by
  unfold index
  cases hx : xs[i]? with
  | some a => exact h a hx
  | none => trivial

theorem index2_bind {R : β → BitReader → Prop} {xss : List (List α)} {i j : ℕ} {f : α → Parse β}
    (h : ∀ a, at2 xss i j = some a → Accepts R (f a) r) : Accepts R (index2 xss i j >>= f) r := by
  unfold index2
  rw [bind_assoc]
  exact index_bind fun row hrow => index_bind fun a ha => h a (Option.bind_eq_some_iff.2 ⟨row, hrow, ha⟩)

theorem log2RoundUp_bind {R : β → BitReader → Prop} {x : ℕ} {f : ℕ → Parse β} (h : Accepts R (f (Nat.size (x % 2 ^ 32))) r) :
    Accepts R (log2RoundUp x >>= f) r := by
  rw [log2RoundUp_eq]
  split
  · exact h
  · trivial

/-- A counting loop with an invariant. -/
theorem forRange (I : ℕ → α → BitReader → Prop) {f : α → ℕ → Parse α} {lo hi : ℕ} (hle : lo ≤ hi)
    (hr : r.zeroPadAfterEof = false)
    (hstep : ∀ i, lo ≤ i → i < hi → ∀ a t, t.zeroPadAfterEof = false → I i a t → Accepts (I (i + 1)) (f a i) t) {a : α}
    (ha : I lo a r) : Accepts (I hi) (forRange lo hi a f) r := by
  have h := Meets.foldlM (E := fun _ => True) (fun i a (t : BitReader) => t.zeroPadAfterEof = false ∧ I i a t) f
    (List.range' lo (hi - lo)) lo a r ⟨hr, ha⟩ (by
      intro i hi' b t ht
      rw [List.length_range'] at hi'
      rw [List.getElem_range', Nat.one_mul]
      exact hstep _ (by omega) (by omega) b t ht.1 ht.2)
  rw [List.length_range', Nat.add_sub_cancel' hle] at h
  exact h

theorem okOr_bind {R : β → BitReader → Prop} {e : DstError} {o : Option α} {f : α → Parse β}
    (h : ∀ a, o = some a → Accepts R (f a) r) : Accepts R (okOr e o >>= f) r := by
  cases o with
  | some a => exact h a rfl
  | none => trivial

end Accepts

/-- One continuation after both branches. -/
theorem ite_bind_both {m : Type → Type} [Monad m] {α β : Type} {c : Prop} [Decidable c] (x y : m α) (f : α → m β) :
    (if c then x >>= f else y >>= f) = (if c then x else y) >>= f := by split <;> rfl

theorem readBit_accepts {r : BitReader} (hr : r.zeroPadAfterEof = false) : Accepts (fun b t => Consumed r [b] t) readBit r := by
  refine (readBit_meets (fun _ => trivial) (fun _ => trivial) fun _ => trivial).mono ?_
  rintro b t ⟨rfl, h⟩
  exact ⟨hr, rfl, h hr⟩

theorem readBitsLoop_accepts : ∀ (n v : ℕ) {r : BitReader}, r.zeroPadAfterEof = false → (v + 1) * 2 ^ n ≤ 2 ^ 32 →
    Accepts (fun w t => ∃ bs, bs.length = n ∧ w = v * 2 ^ n + value bs ∧ Consumed r bs t) (readBitsLoop n v) r
  | 0, v, r, hr, _ => Accepts.pure hr ⟨[], rfl, by simp, Consumed.nil r⟩
  | n + 1, v, r, hr, h => by
    refine (readBit_accepts hr).bind fun b s hs hb => ?_
    obtain ⟨hmod, hle⟩ := shift_bit_fits b h
    rw [hmod]
    refine Meets.mono (readBitsLoop_accepts n (2 * v + b.toNat) hs (hle.trans h)) ?_
    rintro w t ⟨ht, bs, hlen, rfl, hbs⟩
    refine ⟨ht, b :: bs, by simp [hlen], ?_, hb.append hbs⟩
    rw [value_cons, hlen, pow_succ]
    ring

/-- A number and the field it was read from. -/
theorem readBits_accepts (n : ℕ) {r : BitReader} (hr : r.zeroPadAfterEof = false) :
    Accepts (fun v t => Consumed r (ofNat n v) t) (readBits n) r := by
  unfold readBits
  refine Meets.ite (fun _ => Accepts.fail _) fun h => ?_
  have hle : (0 + 1) * 2 ^ n ≤ 2 ^ 32 := by
    rw [Nat.zero_add, Nat.one_mul]
    exact Nat.pow_le_pow_right (by omega) (by omega)
  refine Meets.mono (readBitsLoop_accepts n 0 hr hle) ?_
  rintro v t ⟨ht, bs, hlen, rfl, hbs⟩
  rw [Nat.zero_mul, Nat.zero_add]
  have hof : ofNat n (value bs) = bs := by
    apply value_inj (by simp [hlen])
    rw [value_ofNat (by rw [← hlen]; exact value_lt bs)]
  refine ⟨ht, ?_⟩
  simpa only [hof] using hbs

namespace SegmentData

/-- The arrays of a table under construction. -/
structure Shaped (data : SegmentData) : Prop where
  count : data.segmentCount.length = maxChannels
  len : Rect maxChannels maxSegments data.segmentLen

theorem default_shaped : Shaped default := ⟨List.length_replicate, rect_replicate _ _ _⟩

/-- Channel `ch` has the segments `units`. -/
structure HasUnits (data : SegmentData) (ch : ℕ) (units : List ℕ) : Prop where
  count : data.segmentCount[ch]? = some (units.length + 1)
  len : ∀ seg < units.length, at2 data.segmentLen ch seg = units[seg]?

/-- The other channels are as they were. -/
def SameElsewhere (data data' : SegmentData) (ch : ℕ) : Prop :=
  ∀ c ≠ ch, data'.segmentCount[c]? = data.segmentCount[c]? ∧ ∀ seg, at2 data'.segmentLen c seg = at2 data.segmentLen c seg

theorem HasUnits.elsewhere {data data' : SegmentData} {ch c : ℕ} {units : List ℕ} (h : data.HasUnits c units)
    (hs : SameElsewhere data data' ch) (hc : c ≠ ch) : data'.HasUnits c units where
  count := (hs c hc).1.trans h.count
  len := fun seg hseg => ((hs c hc).2 seg).trans (h.len seg hseg)

/-- What an assignment in a monad with a state does to a table. -/
theorem assign2_accepts {data : SegmentData} (h : data.Shaped) {ch seg : ℕ} (hch : ch < maxChannels)
    (hseg : seg < maxSegments) (len : ℕ) :
    ∃ lens, (assign2 data.segmentLen ch seg len : Parse _) = pure lens ∧ Rect maxChannels maxSegments lens ∧
      ∀ c i, at2 lens c i = if c = ch ∧ i = seg then some len else at2 data.segmentLen c i := by
  obtain ⟨lens, hset, hrect, hat⟩ := assign2_spec (E := DstError) h.len hch hseg len
  exact ⟨lens, hset, hrect, hat⟩

/-- What is left of a channel's record, from segment `seg` on, when `done` segments' lengths are stored. -/
structure Rest (data data' : SegmentData) (ch frameBytes minSegmentBits maxSegs : ℕ) (definedBits seg : ℕ)
    (us : List ℕ) : Prop where
  shaped : data'.Shaped
  elsewhere : SameElsewhere data data' ch
  few : seg + us.length < maxSegs
  long : ∀ u ∈ us, minSegmentBits ≤ data'.resolution * 8 * u
  room : definedBits + (us.map fun u => data'.resolution * 8 * u).sum + minSegmentBits ≤ frameBytes * 8
  fits : us ≠ [] → frameBytes * 8 ≤ usizeMax
  count : data'.segmentCount[ch]? = some (seg + us.length + 1)
  before : ∀ i < seg, at2 data'.segmentLen ch i = at2 data.segmentLen ch i
  len : ∀ i < us.length, at2 data'.segmentLen ch (seg + i) = us[i]?

theorem readResolution_accepts {data : SegmentData} {frameBytes minSegmentBits : ℕ} {r : BitReader}
    (hr : r.zeroPadAfterEof = false) :
    Accepts (fun data' t => data' = { data with resolution := data'.resolution } ∧
      Consumed r (ofNat (Nat.size ((frameBytes - minSegmentBits / 8) % 2 ^ 32)) data'.resolution) t)
      (data.readResolution frameBytes minSegmentBits) r := by
  unfold readResolution
  refine Accepts.okOr_bind fun m hm => ?_
  obtain rfl : frameBytes - minSegmentBits / 8 = m := by
    rw [checkedSub, Option.ite_none_right_eq_some] at hm
    exact Option.some.inj hm.2
  refine Accepts.log2RoundUp_bind ?_
  refine (readBits_accepts _ hr).bind fun R t ht hR => ?_
  exact Meets.ite (fun _ => Accepts.fail _) fun _ => Accepts.pure ht ⟨rfl, hR⟩

/-- One channel's loop, by recursion on the segments that still fit. -/
theorem readLoop_accepts {ch frameBytes maxSegs minSegmentBits : ℕ} (hch : ch < maxChannels) (hmax : maxSegs ≤ maxSegments)
    (data : SegmentData) (definedBits budget seg : ℕ) (resolutionRead : Bool) {r : BitReader} (hr : r.zeroPadAfterEof = false)
    (hs : data.Shaped) (hseg : seg < maxSegs) (hroom : definedBits + minSegmentBits ≤ frameBytes * 8) :
    Accepts (fun data' t => ∃ us, Rest data data' ch frameBytes minSegmentBits maxSegs definedBits seg us ∧
        Consumed r (ChannelSegments.fields (frameBytes - minSegmentBits / 8) data'.resolution resolutionRead budget us) t ∧
        (resolutionRead = true → data'.resolution = data.resolution) ∧
        (resolutionRead = false → us = [] → data'.resolution = 1))
      (data.readOneChannelSegmentsLoop ch frameBytes maxSegs minSegmentBits definedBits budget seg resolutionRead) r := by
  have hch' : ch < data.segmentCount.length := by rw [hs.count]; exact hch
  rw [readOneChannelSegmentsLoop]
  refine (readBit_accepts hr).bind fun stop t ht hstop => ?_
  cases stop
  · -- a non-final segment
    simp only [Bool.false_eq_true, if_false]
    split
    · exact Accepts.fail _
    rename_i hfew
    have hres : Accepts (fun data' t' => data' = { data with resolution := data'.resolution } ∧
        (resolutionRead = true → data'.resolution = data.resolution) ∧
        Consumed t (if resolutionRead then [] else ofNat (Nat.size ((frameBytes - minSegmentBits / 8) % 2 ^ 32)) data'.resolution) t')
        (if resolutionRead then pure data else data.readResolution frameBytes minSegmentBits) t := by
      cases resolutionRead
      · refine Meets.mono (readResolution_accepts ht) ?_
        rintro data' t' ⟨ht', hd, hc⟩
        exact ⟨ht', hd, fun hread => absurd hread Bool.false_ne_true, hc⟩
      · exact Accepts.pure ht ⟨rfl, fun _ => rfl, Consumed.nil t⟩
    rw [ite_bind_both]
    refine hres.bind ?_
    rintro data₁ t₁ ht₁ ⟨hd₁, hkeep, hc₁⟩
    refine Accepts.okOr_bind fun maxUnits hunits => ?_
    obtain rfl : budget / data₁.resolution = maxUnits := by
      rw [Option.ite_none_left_eq_some] at hunits
      exact Option.some.inj hunits.2
    refine Accepts.log2RoundUp_bind ?_
    refine (readBits_accepts _ ht₁).bind fun u t₂ ht₂ hu => ?_
    refine Accepts.okOr_bind fun lenBits hlen => ?_
    obtain rfl : data₁.resolution * 8 * u = lenBits := by
      simp only [checkedMul, Option.bind_eq_some_iff, Option.ite_none_right_eq_some, Option.some.injEq] at hlen
      obtain ⟨_, ⟨-, rfl⟩, -, h⟩ := hlen
      exact h
    refine Accepts.okOr_bind fun remaining hrem => ?_
    obtain ⟨hfits, rfl⟩ : frameBytes * 8 ≤ usizeMax ∧ frameBytes * 8 - definedBits - minSegmentBits = remaining := by
      simp only [checkedMul, checkedSub, Option.bind_eq_some_iff, Option.ite_none_right_eq_some, Option.some.injEq] at hrem
      obtain ⟨_, ⟨_, ⟨hfits, rfl⟩, -, rfl⟩, -, h⟩ := hrem
      exact ⟨hfits, h⟩
    refine Meets.ite (fun _ => Accepts.fail _) fun hok => ?_
    have hs₁ : data₁.Shaped := by rw [hd₁]; exact ⟨hs.count, hs.len⟩
    obtain ⟨lens, hset, hrect, hat⟩ := assign2_accepts hs₁ hch (show seg < maxSegments by omega) u
    rw [hset, pure_bind]
    refine Accepts.okOr_bind fun defined hdef => ?_
    obtain rfl : definedBits + data₁.resolution * 8 * u = defined := by
      rw [checkedAdd, Option.ite_none_right_eq_some] at hdef
      exact Option.some.inj hdef.2
    refine Accepts.okOr_bind fun lenBytes hbytes => ?_
    obtain rfl : data₁.resolution * u = lenBytes := by
      rw [checkedMul, Option.ite_none_right_eq_some] at hbytes
      exact Option.some.inj hbytes.2
    refine Accepts.okOr_bind fun left hleft => ?_
    obtain rfl : budget - data₁.resolution * u = left := by
      rw [checkedSub, Option.ite_none_right_eq_some] at hleft
      exact Option.some.inj hleft.2
    refine Meets.mono (readLoop_accepts hch hmax { data₁ with segmentLen := lens } _ _ (seg + 1) true ht₂
      ⟨hs₁.count, hrect⟩ (by omega) (by omega)) ?_
    rintro data' t' ⟨ht', us, hrest, hc, hkeep', -⟩
    have hR : data'.resolution = data₁.resolution := hkeep' rfl
    refine ⟨ht', u :: us, ⟨hrest.shaped, fun c hne => ?_, ?_, ?_, ?_, fun _ => hfits, ?_, ?_, ?_⟩, ?_, ?_, fun _ h => absurd h (List.cons_ne_nil _ _)⟩
    · obtain ⟨h1, h2⟩ := hrest.elsewhere c hne
      refine ⟨h1.trans (by rw [hd₁]), fun i => (h2 i).trans ?_⟩
      rw [hat, if_neg (by simp [hne]), hd₁]
    · have := hrest.few
      rw [List.length_cons]
      omega
    · intro v hv
      rcases List.mem_cons.1 hv with rfl | hv
      · rw [hR]; omega
      · exact hrest.long v hv
    · have := hrest.room
      rw [List.map_cons, List.sum_cons]
      rw [hR] at this ⊢
      omega
    · rw [hrest.count, List.length_cons]
      congr 1
      omega
    · intro i hi
      rw [hrest.before i (by omega)]
      simp only
      rw [hat, if_neg (by omega), hd₁]
    · intro i hi
      cases i with
      | zero =>
        rw [Nat.add_zero, hrest.before seg (by omega)]
        simp only
        rw [hat, if_pos ⟨rfl, rfl⟩]
        rfl
      | succ i =>
        rw [show seg + (i + 1) = seg + 1 + i by omega, hrest.len i (by simpa using hi)]
        rfl
    · rw [ChannelSegments.fields, hR]
      rw [hR] at hc
      exact hstop.append (hc₁.append (hu.append hc))
    · intro h
      exact hR.trans (hkeep h)
  · -- the last segment
    simp only [if_true]
    refine Accepts.okOr_bind fun count hcount => ?_
    obtain rfl : seg + 1 = count := by
      rw [checkedAdd, Option.ite_none_right_eq_some] at hcount
      exact Option.some.inj hcount.2
    obtain ⟨lens, hset, hrect, hat⟩ := assign2_accepts hs hch (show seg < maxSegments by omega) 0
    rw [assign_of_lt hch', pure_bind, hset, pure_bind]
    refine Accepts.pure ht ⟨[], ⟨⟨by simpa using hs.count, hrect⟩, fun c hne => ⟨?_, fun i => ?_⟩, by simpa using hseg,
      by simp, by simpa using hroom, fun hne => absurd rfl hne, ?_, fun i hi => ?_, by simp⟩, hstop, ?_, ?_⟩
    · exact List.getElem?_set_ne (Ne.symm hne)
    · rw [hat, if_neg (by simp [hne])]
    · simp [hch']
    · rw [hat, if_neg (by omega)]
    · rintro rfl
      rfl
    · rintro rfl -
      rfl
termination_by maxSegs - seg

/-- A channel's record and what is stored of it. -/
structure Recorded (data : SegmentData) (ch frameBytes minSegmentBits : ℕ) (c : ChannelSegments) : Prop where
  units : data.HasUnits ch c.units
  few : c.units.length < maxSegments
  checked : c.Checked frameBytes minSegmentBits
  fits : c.units ≠ [] → frameBytes * 8 ≤ usizeMax

theorem readOneChannelSegments_accepts {data : SegmentData} {ch frameBytes maxSegs minSegmentBits : ℕ}
    (hch : ch < maxChannels) (h0 : 0 < maxSegs) (hmax : maxSegs ≤ maxSegments) (h8 : 8 ∣ minSegmentBits) {r : BitReader}
    (hr : r.zeroPadAfterEof = false) (hs : data.Shaped) :
    Accepts (fun data' t => data'.Shaped ∧ SameElsewhere data data' ch ∧ ∃ c : ChannelSegments,
        data'.Recorded ch frameBytes minSegmentBits c ∧ data'.resolution = c.resolution ∧
        Consumed r (c.bits frameBytes minSegmentBits) t)
      (data.readOneChannelSegments ch frameBytes maxSegs minSegmentBits) r := by
  unfold readOneChannelSegments
  refine Accepts.okOr_bind fun budget hbudget => ?_
  rw [checkedSub, Option.ite_none_right_eq_some] at hbudget
  obtain ⟨hle, hb⟩ := hbudget
  obtain rfl : frameBytes - minSegmentBits / 8 = budget := Option.some.inj hb
  refine Meets.mono (readLoop_accepts hch hmax data 0 _ 0 false hr hs h0 (by omega)) ?_
  rintro data' t ⟨ht, us, hrest, hc, -, hplain⟩
  refine ⟨ht, hrest.shaped, hrest.elsewhere, ⟨data'.resolution, us⟩, ⟨⟨?_, ?_⟩, ?_, ⟨hplain rfl, ?_, ?_⟩, hrest.fits⟩, rfl, hc⟩
  · simpa using hrest.count
  · simpa using hrest.len
  · have := hrest.few
    simp only
    omega
  · intro len hlen
    obtain ⟨u, hu, rfl⟩ := List.mem_map.1 hlen
    exact hrest.long u hu
  · simpa [ChannelSegments.lengths] using hrest.room

/-- Channel `ch` gets what channel 0 has. -/
theorem copyChannelZero_accepts {data : SegmentData} {ch : ℕ} (hch : ch < maxChannels) (h0 : 0 < ch) {units : List ℕ}
    (hunits : data.HasUnits 0 units) (hfew : units.length < maxSegments) {r : BitReader} (hr : r.zeroPadAfterEof = false)
    (hs : data.Shaped) :
    Accepts (fun data' t => data'.Shaped ∧ SameElsewhere data data' ch ∧ data'.HasUnits ch units ∧
        data'.resolution = data.resolution ∧ t = r) (data.copyChannelZero ch) r := by
  unfold copyChannelZero
  rw [index_of_getElem? hunits.count, pure_bind, assign_of_lt (by rw [hs.count]; exact hch), pure_bind]
  refine Accepts.bind (Q := fun lens t => t = r ∧ Rect maxChannels maxSegments lens ∧
    (∀ c ≠ ch, ∀ i, at2 lens c i = at2 data.segmentLen c i) ∧
    ∀ i < units.length + 1, at2 lens ch i = at2 data.segmentLen 0 i) ?_ ?_
  · refine Meets.mono (Accepts.forRange (fun k lens t => t = r ∧ Rect maxChannels maxSegments lens ∧
      (∀ c ≠ ch, ∀ i, at2 lens c i = at2 data.segmentLen c i) ∧ ∀ i < k, at2 lens ch i = at2 data.segmentLen 0 i)
      (Nat.zero_le _) hr ?_ ⟨rfl, hs.len, fun _ _ _ => rfl, by simp⟩) fun lens t h => h
    rintro k - hk lens t ht ⟨rfl, hrect, hother, hdone⟩
    refine Accepts.index2_bind fun len hlen => ?_
    obtain ⟨lens', hset, hrect', hat⟩ := assign2_spec (E := DstError) hrect hch (show k < maxSegments by omega) len
    rw [hset]
    refine Accepts.pure ht ⟨rfl, hrect', fun c hc i => ?_, fun i hi => ?_⟩
    · rw [hat, if_neg (by simp [hc]), hother c hc]
    · rw [hat]
      by_cases hik : i = k
      · rw [if_pos ⟨rfl, hik⟩, hik, ← hother 0 (by omega), hlen]
      · rw [if_neg (by simp [hik]), hdone i (by omega)]
  · rintro lens t ht ⟨rfl, hrect, hother, hdone⟩
    refine Accepts.pure ht ⟨⟨by simpa using hs.count, hrect⟩, fun c hc => ⟨?_, hother c hc⟩, ⟨?_, fun seg hseg => ?_⟩, rfl, rfl⟩
    · exact List.getElem?_set_ne (Ne.symm hc)
    · simp [hs.count, hch]
    · rw [hdone seg (by omega), hunits.len seg hseg]

/-- What an accepted table is: the records, the units stored for every channel, and one resolution. -/
theorem read_accepts {channels frameBytes maxSegs minSegmentBits : ℕ} (h1 : 1 ≤ channels) (h6 : channels ≤ maxChannels)
    (h0 : 0 < maxSegs) (hmax : maxSegs ≤ maxSegments) (h8 : 8 ∣ minSegmentBits) {r : BitReader}
    (hr : r.zeroPadAfterEof = false) :
    Accepts (fun out t => ∃ records : List ChannelSegments, records.length = (if out.2 then 1 else channels) ∧
        Consumed r (tableBits frameBytes minSegmentBits out.2 records) t ∧
        records.getLast?.map (·.resolution) = some out.1.resolution ∧
        ∀ ch < channels, ∃ c, recordOf out.2 records ch = some c ∧ out.1.Recorded ch frameBytes minSegmentBits c)
      (read channels frameBytes maxSegs minSegmentBits) r := by
  unfold read
  refine (readBit_accepts hr).bind fun same s hsame hflag => ?_
  cases same
  · simp only [Bool.false_eq_true, if_false]
    refine Accepts.bind (Accepts.forRange (fun k data t => data.Shaped ∧ ∃ records : List ChannelSegments,
      records.length = k ∧ Consumed s (records.flatMap (ChannelSegments.bits frameBytes minSegmentBits)) t ∧
      (0 < k → records.getLast?.map (·.resolution) = some data.resolution) ∧
      ∀ ch < k, ∃ c, records[ch]? = some c ∧ data.Recorded ch frameBytes minSegmentBits c)
      (Nat.zero_le channels) hsame ?_ ⟨default_shaped, [], rfl, Consumed.nil s, by simp, by simp⟩) ?_
    · rintro k - hk data t ht ⟨hs, records, hlen, hc, -, hrec⟩
      refine Meets.mono (readOneChannelSegments_accepts (show k < maxChannels by omega) h0 hmax h8 ht hs) ?_
      rintro data' t' ⟨ht', hs', helse, c, hnew, hres, hc'⟩
      refine ⟨ht', hs', records ++ [c], by simp [hlen], ?_, fun _ => by simp [hres], fun ch hch => ?_⟩
      · rw [List.flatMap_append]
        simpa using hc.append hc'
      · by_cases hk : ch = k
        · subst hk
          exact ⟨c, by simp [← hlen], hnew⟩
        · obtain ⟨c', hget, hold⟩ := hrec ch (by omega)
          exact ⟨c', by rw [List.getElem?_append_left (by omega), hget],
            ⟨hold.units.elsewhere helse hk, hold.few, hold.checked, hold.fits⟩⟩
    · rintro data t ht ⟨-, records, hlen, hc, hres, hrec⟩
      exact Accepts.pure ht ⟨records, by simpa using hlen, hflag.append hc, hres (by omega), hrec⟩
  · simp only [if_true]
    refine (readOneChannelSegments_accepts (show 0 < maxChannels by decide) h0 hmax h8 hsame default_shaped).bind ?_
    rintro data t ht ⟨hs, -, c, hrec, hres, hc⟩
    refine Accepts.bind (Accepts.forRange (fun k (data' : SegmentData) t' => t' = t ∧ data'.Shaped ∧
      data'.resolution = c.resolution ∧ ∀ ch < k, data'.HasUnits ch c.units) h1 ht ?_
      ⟨rfl, hs, hres, fun ch hch => (show ch = 0 by omega) ▸ hrec.units⟩) ?_
    · rintro k hk1 hk data₁ t₁ ht₁ ⟨rfl, hs₁, hres₁, hunits⟩
      refine Meets.mono (copyChannelZero_accepts (show k < maxChannels by omega) (by omega) (hunits 0 (by omega)) hrec.few
        ht₁ hs₁) ?_
      rintro data₂ t₂ ⟨ht₂, hs₂, helse, hnew, hres₂, rfl⟩
      refine ⟨ht₂, rfl, hs₂, hres₂.trans hres₁, fun ch hch => ?_⟩
      by_cases hk : ch = k
      · subst hk
        exact hnew
      · exact (hunits ch (by omega)).elsewhere helse hk
    · rintro data₁ t₁ ht₁ ⟨rfl, -, hres₁, hunits⟩
      refine Accepts.pure ht₁ ⟨[c], by simp, ?_, by simp [hres₁], fun ch hch => ⟨c, by simp [recordOf], hunits ch hch,
        hrec.few, hrec.checked, hrec.fits⟩⟩
      simpa [tableBits] using hflag.append hc

/-! ## The geometry in use -/

/-- A stored length in the resolution of the table. -/
theorem segmentLenBits_eq {data : SegmentData} {ch seg u : ℕ} (hu : at2 data.segmentLen ch seg = some u)
    (hfit : data.resolution * 8 * u ≤ usizeMax) (h0 : 0 < u) : data.segmentLenBits ch seg = .ok (data.resolution * 8 * u) := by
  have hR : data.resolution * 8 ≤ usizeMax := (Nat.le_mul_of_pos_right _ h0).trans hfit
  rw [segmentLenBits, index2_of_at2 hu, pure_bind, checkedMul_of_le hR, Option.bind_some, checkedMul_of_le hfit]
  rfl

theorem segmentLenBits_eq_ok {data : SegmentData} {ch seg u len : ℕ} (hu : at2 data.segmentLen ch seg = some u)
    (h : data.segmentLenBits ch seg = .ok len) : len = data.resolution * 8 * u := by
  rw [segmentLenBits, index2_of_at2 hu, pure_bind] at h
  cases ho : (checkedMul data.resolution 8).bind fun n => checkedMul n u with
  | none =>
    rw [ho] at h
    cases h
  | some n =>
    rw [ho] at h
    cases h
    simp only [checkedMul, Option.bind_eq_some_iff, Option.ite_none_right_eq_some, Option.some.injEq] at ho
    obtain ⟨_, ⟨-, rfl⟩, -, h⟩ := ho
    exact h.symm

/-- In the unit of its own record a channel is cut where it was checked. -/
theorem Recorded.partitions {data : SegmentData} {ch frameBytes minSegmentBits : ℕ} {c : ChannelSegments}
    (h : data.Recorded ch frameBytes minSegmentBits c) (hmin : 0 < minSegmentBits)
    (hres : c.units ≠ [] → data.resolution = c.resolution) :
    data.Partitions (frameBytes * 8) minSegmentBits ch c.lengths := by
  have hlength : c.lengths.length = c.units.length := by simp [ChannelSegments.lengths]
  have hroom := h.checked.room
  have hsum : ∀ k, (c.lengths.take k).sum ≤ c.lengths.sum := fun k => by
    conv_rhs => rw [← List.take_append_drop k c.lengths, List.sum_append]
    omega
  have hused : ∀ seg (hseg : seg < c.lengths.length), data.segmentLenBits ch seg = .ok c.lengths[seg] := by
    intro seg hseg
    have hne : c.units ≠ [] := by
      rintro hnil
      simp [hlength, hnil] at hseg
    have hunit := h.units.len seg (by omega)
    rw [List.getElem?_eq_getElem (by omega)] at hunit
    have hlen : c.lengths[seg] = data.resolution * 8 * c.units[seg] := by
      rw [hres hne]
      simp [ChannelSegments.lengths]
    have hlong := h.checked.long _ (List.getElem_mem hseg)
    have hle : c.lengths[seg] ≤ c.lengths.sum := List.single_le_sum (by simp) _ (List.getElem_mem hseg)
    have hfits := h.fits hne
    rw [hlen] at hlong hle ⊢
    refine segmentLenBits_eq hunit (by omega) ?_
    by_contra h0
    rw [show c.units[seg] = 0 by omega] at hlong
    omega
  refine ⟨by rw [hlength]; exact h.units.count, hused, fun seg hseg => ?_⟩
  by_cases hlast : seg = c.lengths.length
  · subst hlast
    refine ⟨frameBytes * 8, ?_, by simp, ?_⟩
    · rw [segmentEndFromStart, if_pos rfl]
      rfl
    · rw [List.take_length]
      exact hroom
  · have hlt : seg < c.lengths.length := by omega
    have htake : (c.lengths.take (seg + 1)).sum = (c.lengths.take seg).sum + c.lengths[seg] := by
      rw [List.take_succ_eq_append_getElem hlt, List.sum_append]
      simp
    have hlong := h.checked.long _ (List.getElem_mem hlt)
    refine ⟨_, ?_, (if_neg hlast).symm, by omega⟩
    have hle := hsum (seg + 1)
    have hfits := h.fits (by
      rintro hnil
      simp [hlength, hnil] at hlt)
    rw [segmentEndFromStart, if_neg (by omega), hused seg hlt, ok_bind, checkedAdd_of_le (by omega), htake]
    rfl

/-- A channel that is cut where it was checked has the resolution it was checked with. -/
theorem Recorded.resolution_eq {data : SegmentData} {ch frameBytes minSegmentBits : ℕ} {c : ChannelSegments}
    (h : data.Recorded ch frameBytes minSegmentBits c) (hmin : 0 < minSegmentBits)
    (hpart : data.Partitions (frameBytes * 8) minSegmentBits ch c.lengths) (hne : c.units ≠ []) :
    data.resolution = c.resolution := by
  have hpos : 0 < c.units.length := List.length_pos_iff.2 hne
  have hlength : c.lengths.length = c.units.length := by simp [ChannelSegments.lengths]
  have hunit := h.units.len 0 hpos
  rw [List.getElem?_eq_getElem hpos] at hunit
  have hused := segmentLenBits_eq_ok hunit (hpart.used 0 (by omega))
  have hlen : c.lengths[0] = c.resolution * 8 * c.units[0] := by simp [ChannelSegments.lengths]
  have hlong := h.checked.long _ (List.getElem_mem (show 0 < c.lengths.length by omega))
  have h0 : 0 < c.units[0] := by
    by_contra h0
    rw [hlen, show c.units[0] = 0 by omega] at hlong
    omega
  have hmul : data.resolution * 8 = c.resolution * 8 := Nat.eq_of_mul_eq_mul_right h0 (hused.symm.trans hlen)
  omega

end SegmentData

theorem SegmentKind.maxSegments_le (kind : SegmentKind) : 0 < kind.maxSegments ∧ kind.maxSegments ≤ Dst.maxSegments := by
  cases kind <;> decide

theorem SegmentKind.minSegmentBits_spec (kind : SegmentKind) : 0 < kind.minSegmentBits ∧ 8 ∣ kind.minSegmentBits := by
  cases kind <;> decide

/-- **An accepted segment table keeps the geometry it was checked with exactly when one record serves all
    channels or every channel that has lengths uses the resolution of the last record.** The records are
    those in the bits. -/
theorem keepsGeometry_iff (kind : SegmentKind) {channels frameBytes pos : ℕ} {input : List UInt8} {data : SegmentData}
    {same : Bool} {t : BitReader} (h1 : 1 ≤ channels) (h6 : channels ≤ 6)
    (h : SegmentData.read channels frameBytes kind.maxSegments kind.minSegmentBits ⟨input, pos, false⟩ = .ok ((data, same), t)) :
    ∃ records : List ChannelSegments, records.length = (if same then 1 else channels) ∧
      (∀ c ∈ records, c.Checked frameBytes kind.minSegmentBits) ∧
      tableBits frameBytes kind.minSegmentBits same records <+: (bitsOf input).drop pos ∧
      (data.KeepsGeometry channels frameBytes kind.minSegmentBits same records ↔ same = true ∨ OneResolution records) := by
  obtain ⟨hmin, h8⟩ := kind.minSegmentBits_spec
  obtain ⟨-, records, hlen, ⟨-, hbits⟩, hlast, hrec⟩ := Meets.of_ok
    (SegmentData.read_accepts h1 h6 kind.maxSegments_le.1 kind.maxSegments_le.2 h8 rfl) h
  simp only at hlen hbits hlast hrec
  -- every record is the record of some channel
  have hchannel : ∀ c ∈ records, ∃ ch < channels, recordOf same records ch = some c ∧
      data.Recorded ch frameBytes kind.minSegmentBits c := by
    intro c hc
    obtain ⟨ch, hch, rfl⟩ := List.mem_iff_getElem.1 hc
    have hlt : ch < channels := by
      rw [hlen] at hch
      cases same <;> simp at hch <;> omega
    have hget : recordOf same records ch = some records[ch] := by
      cases same
      · simp [recordOf, hch]
      · obtain rfl : ch = 0 := by simp [hlen] at hch; omega
        simp [recordOf, hch]
    obtain ⟨c', hc', hr⟩ := hrec ch hlt
    rw [hget] at hc'
    cases hc'
    exact ⟨ch, hlt, hget, hr⟩
  refine ⟨records, hlen, fun c hc => ?_, hbits, fun hkeep => ?_, fun hone ch hch => ?_⟩
  · obtain ⟨ch, -, -, hr⟩ := hchannel c hc
    exact hr.checked
  · refine Or.inr fun c hc hne => ?_
    obtain ⟨ch, hlt, hget, hr⟩ := hchannel c hc
    obtain ⟨c', hget', hpart⟩ := hkeep ch hlt
    rw [hget] at hget'
    cases hget'
    rw [hlast, hr.resolution_eq hmin hpart hne]
  · obtain ⟨c, hget, hr⟩ := hrec ch hch
    refine ⟨c, hget, hr.partitions hmin fun hne => ?_⟩
    have hmem : c ∈ records := by
      unfold recordOf at hget
      split at hget <;> exact List.mem_of_getElem? hget
    have hsome : records.getLast?.map (·.resolution) = some c.resolution := by
      rcases hone with rfl | hone
      · obtain ⟨c', rfl⟩ := List.length_eq_one_iff.1 (by simpa using hlen)
        obtain rfl : c = c' := by simpa using hmem
        rfl
      · exact hone c hmem hne
    rw [hlast] at hsome
    exact Option.some.inj hsome

/-- Channel 0 has a segment of 1024 bits in units of 128 bytes; channel 1 has none, and its end resets the
    resolution to one byte. -/
theorem read_reset : ∃ data t, SegmentData.read 2 4704 maxFilterSegments minFilterSegmentBits ⟨[1, 0, 14], 0, false⟩ =
    .ok ((data, false), t) ∧ data.segmentLenBits 0 0 = .ok 8 := by
  have hview : (match SegmentData.read 2 4704 maxFilterSegments minFilterSegmentBits ⟨[1, 0, 14], 0, false⟩ with
      | .ok ((data, same), _) => some (same, data.segmentLenBits 0 0)
      | .error _ => none) = some (false, .ok 8) := by decide +kernel
  cases h : SegmentData.read 2 4704 maxFilterSegments minFilterSegmentBits ⟨[1, 0, 14], 0, false⟩ with
  | error e =>
    rw [h] at hview
    cases hview
  | ok out =>
    obtain ⟨⟨data, same⟩, t⟩ := out
    rw [h] at hview
    simp only [Option.some.injEq, Prod.mk.injEq] at hview
    obtain ⟨rfl, hlen⟩ := hview
    exact ⟨data, t, rfl, hlen⟩

theorem keepsGeometry_iff_reset : ∃ data same t,
    SegmentData.read 2 4704 SegmentKind.filter.maxSegments SegmentKind.filter.minSegmentBits ⟨[1, 0, 14], 0, false⟩ =
      .ok ((data, same), t) ∧
    ∃ records : List ChannelSegments, records.length = (if same then 1 else 2) ∧
      (∀ c ∈ records, c.Checked 4704 SegmentKind.filter.minSegmentBits) ∧
      tableBits 4704 SegmentKind.filter.minSegmentBits same records <+: (bitsOf [1, 0, 14]).drop 0 ∧
      (data.KeepsGeometry 2 4704 SegmentKind.filter.minSegmentBits same records ↔ same = true ∨ OneResolution records) := by
  obtain ⟨data, t, h, -⟩ := read_reset
  exact ⟨data, false, t, h, keepsGeometry_iff .filter (by omega) (by omega) h⟩

/-- The segment that was checked as 1024 bits is used as 8. -/
theorem geometry_lost : ∃ data t records,
    SegmentData.read 2 4704 maxFilterSegments minFilterSegmentBits ⟨[1, 0, 14], 0, false⟩ = .ok ((data, false), t) ∧
      tableBits 4704 minFilterSegmentBits false records <+: (bitsOf [1, 0, 14]).drop 0 ∧
      records = [⟨128, [1]⟩, ⟨1, []⟩] ∧ data.segmentLenBits 0 0 = .ok 8 ∧
      ¬ data.KeepsGeometry 2 4704 minFilterSegmentBits false records := by
  obtain ⟨data, t, h, hlen⟩ := read_reset
  refine ⟨data, t, _, h, by decide, rfl, hlen, fun hkeep => ?_⟩
  obtain ⟨c, hc, hpart⟩ := hkeep 0 (by omega)
  obtain rfl : (⟨128, [1]⟩ : ChannelSegments) = c := Option.some.inj hc
  have hused := hpart.used 0 (by decide)
  rw [hlen] at hused
  exact absurd hused (by decide)

end Dst
