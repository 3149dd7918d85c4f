import Tonepoet.Dst.Header

/-!
# The two passes of the encoder over a frame

Both passes walk the same grid of bit index and channel and keep the same history, which depends on the
frame alone. `symbolsFrom` is that walk as a pure function; `encodeResiduals_ok` says that the coding
pass codes exactly those symbols, `deriveProbabilityTables_ok` that the counting pass yields tables the
coder accepts.
-/

namespace Dst

open Rust BitString BitReader IntervalCoder

/-- The positions of a frame in coding order. -/
def positions (channels : ℕ) : List (ℕ × ℕ) := grid frameBitsPerChannel channels

/-- The arguments of a pass belong together. -/
structure Fits (dsd : List UInt8) (channels : ℕ) (luts : List FilterLut) (tables : List ℕ) : Prop where
  channels_le : channels ≤ maxChannels
  length_dsd : dsd.length = frameBytesPerChannel * channels
  length_tables : tables.length = channels
  table_lt : ∀ t ∈ tables, t < luts.length

def actualBit (dsd : List UInt8) (channels : ℕ) (p : ℕ × ℕ) : Bool :=
  (dsd.getD (p.1 >>> 3 * channels + p.2) 0).toNat.testBit (7 - p.1 % 8)

/-- The context of one position. -/
def contextAt (dsd : List UInt8) (channels : ℕ) (luts : List FilterLut) (tables : List ℕ) (status : List (List UInt8))
    (p : ℕ × ℕ) : BitContext :=
  let table := tables.getD p.2 0
  let history := status.getD p.2 []
  let predict := predictFromLut (luts.getD table fun _ _ => 0) history
  let actual := actualBit dsd channels p
  ⟨table, predict, actual, predictedBit predict ^^ actual, history⟩

def nextStatus (dsd : List UInt8) (channels : ℕ) (status : List (List UInt8)) (p : ℕ × ℕ) : List (List UInt8) :=
  status.set p.2 (pushStatusBit (status.getD p.2 []) (actualBit dsd channels p))

def probabilityAt (probabilities : List (List ℕ)) (c : BitContext) : ℕ :=
  let table := probabilities.getD c.table []
  table.getD (probabilityBin c.predict table.length) 0

/-- The residual bits of a walk and their probabilities. -/
def symbolsFrom (dsd : List UInt8) (channels : ℕ) (luts : List FilterLut) (tables : List ℕ)
    (probabilities : List (List ℕ)) : List (List UInt8) → List (ℕ × ℕ) → List (Bool × ℕ)
  | _, [] => []
  | status, p :: ps =>
    let c := contextAt dsd channels luts tables status p
    (c.residual, probabilityAt probabilities c) ::
      symbolsFrom dsd channels luts tables probabilities (nextStatus dsd channels status p) ps

section Passes

variable {dsd : List UInt8} {channels : ℕ} {luts : List FilterLut} {tables : List ℕ} {status : List (List UInt8)}
  {p : ℕ × ℕ}

theorem length_nextStatus (h : status.length = maxChannels) : (nextStatus dsd channels status p).length = maxChannels := by
  simpa [nextStatus] using h

/-- The byte that holds a position. -/
theorem byteIndex_lt (hp : p ∈ positions channels) : p.1 >>> 3 * channels + p.2 < frameBytesPerChannel * channels := by
  obtain ⟨h1, h2⟩ := mem_grid.1 hp
  rw [Nat.shiftRight_eq_div_pow]
  have hk : p.1 / 2 ^ 3 + 1 ≤ frameBytesPerChannel := by
    simp only [frameBitsPerChannel] at h1
    omega
  calc p.1 / 2 ^ 3 * channels + p.2 < (p.1 / 2 ^ 3 + 1) * channels := by rw [Nat.add_mul]; omega
    _ ≤ frameBytesPerChannel * channels := Nat.mul_le_mul_right _ hk

theorem Fits.table_mem (h : Fits dsd channels luts tables) (hp : p ∈ positions channels) :
    tables[p.2]? = some (tables.getD p.2 0) ∧ tables.getD p.2 0 < luts.length := by
  have hch := (mem_grid.1 hp).2
  have hlt : p.2 < tables.length := by rw [h.length_tables]; exact hch
  have hget := getElem?_getD 0 hlt
  exact ⟨hget, h.table_lt _ (List.mem_of_getElem? hget)⟩

theorem getElem?_status (hs : status.length = maxChannels) (h6 : channels ≤ maxChannels) (hp : p ∈ positions channels) :
    status[p.2]? = some (status.getD p.2 []) := by
  have := (mem_grid.1 hp).2
  exact getElem?_getD _ (by omega)

/-- No index of a pass is out of range. -/
theorem bitContext_ok {E : Type} (h : Fits dsd channels luts tables) (hs : status.length = maxChannels)
    (hp : p ∈ positions channels) :
    (bitContext dsd channels luts (luts.length - 1) tables status p.1 p.2 : Outcome E BitContext) =
      .ok (contextAt dsd channels luts tables status p) := by
  obtain ⟨htable, hlt⟩ := h.table_mem hp
  have hlut := getElem?_getD (fun _ _ => 0) hlt
  have hbyte := getElem?_getD (0 : UInt8) (show p.1 >>> 3 * channels + p.2 < dsd.length by
    rw [h.length_dsd]
    exact byteIndex_lt hp)
  simp only [bitContext, index_of_getElem? htable, pure_bind, min_eq_left (Nat.le_sub_one_of_lt hlt),
    index_of_getElem? hlut, index_of_getElem? (getElem?_status hs h.channels_le hp), getInterleavedBit,
    index_of_getElem? hbyte]
  rfl

/-! ## The coding pass -/

/-- The tables that `derive_probability_tables` can return. -/
structure Usable (probabilities : List (List ℕ)) (count : ℕ) : Prop where
  length : probabilities.length = count
  row : ∀ ps ∈ probabilities, ps ≠ [] ∧ ps.length ≤ probabilityTableLen ∧ ∀ x ∈ ps, 1 ≤ x ∧ x ≤ 128

variable {probabilities : List (List ℕ)}

/-- The probability of a context is an entry of its table. -/
theorem Usable.probability (hu : Usable probabilities luts.length) (h : Fits dsd channels luts tables)
    (status : List (List UInt8)) (hp : p ∈ positions channels) : ∃ row, probabilities[(contextAt dsd channels luts tables status p).table]? = some row ∧
      row ≠ [] ∧ row[probabilityBin (contextAt dsd channels luts tables status p).predict row.length]? =
        some (probabilityAt probabilities (contextAt dsd channels luts tables status p)) ∧
      1 ≤ probabilityAt probabilities (contextAt dsd channels luts tables status p) ∧
      probabilityAt probabilities (contextAt dsd channels luts tables status p) ≤ 128 := by
  obtain ⟨_, hlt⟩ := h.table_mem hp
  have hrow := getElem?_getD ([] : List ℕ) (hu.length ▸ hlt)
  obtain ⟨hne, _, hrange⟩ := hu.row _ (List.mem_of_getElem? hrow)
  have hbin : ∀ (z : ℤ), probabilityBin z (probabilities.getD (tables.getD p.2 0) []).length <
      (probabilities.getD (tables.getD p.2 0) []).length := by
    intro z
    have := List.length_pos_iff.2 hne
    unfold probabilityBin
    omega
  have hentry := getElem?_getD 0 (hbin (contextAt dsd channels luts tables status p).predict)
  exact ⟨_, hrow, hne, hentry, hrange _ (List.mem_of_getElem? hentry)⟩

theorem symbolsFrom_legal (hu : Usable probabilities luts.length) (h : Fits dsd channels luts tables) :
    ∀ (ps : List (ℕ × ℕ)) (status : List (List UInt8)), (∀ p ∈ ps, p ∈ positions channels) →
      ArithmeticBitEncoder.Legal (symbolsFrom dsd channels luts tables probabilities status ps)
  | [], _, _ => by simp [symbolsFrom, ArithmeticBitEncoder.Legal]
  | p :: ps, status, hps => by
    intro x hx
    rcases List.mem_cons.1 hx with rfl | hx
    · obtain ⟨_, _, _, _, hrange⟩ := hu.probability h status (hps p (by simp))
      exact hrange
    · exact symbolsFrom_legal hu h ps _ (fun q hq => hps q (by simp [hq])) x hx

theorem length_symbolsFrom : ∀ (ps : List (ℕ × ℕ)) (status : List (List UInt8)),
    (symbolsFrom dsd channels luts tables probabilities status ps).length = ps.length
  | [], _ => rfl
  | p :: ps, status => by simp [symbolsFrom, length_symbolsFrom ps]

/-- The coding loop codes the symbols of the walk. -/
theorem residualLoop_ok {E : Type} (hu : Usable probabilities luts.length) (h : Fits dsd channels luts tables) :
    ∀ (ps : List (ℕ × ℕ)) (s : ResidualState), (∀ p ∈ ps, p ∈ positions channels) → s.status.length = maxChannels →
      ∃ s' : ResidualState, (ps.foldlM (fun s p => encodeResidualBit dsd channels luts probabilities tables p.1 s p.2) s :
          Outcome E ResidualState) = .ok s' ∧
        s'.arithmetic = s.arithmetic.encodeAll (symbolsFrom dsd channels luts tables probabilities s.status ps)
  | [], s, _, _ => ⟨s, rfl, rfl⟩
  | p :: ps, s, hps, hs => by
    have hp := hps p (by simp)
    obtain ⟨row, hrow, _, hentry, _⟩ := hu.probability h s.status hp
    have hch : p.2 < s.status.length := by
      have := (mem_grid.1 hp).2
      have := h.channels_le
      omega
    have hstep : (encodeResidualBit dsd channels luts probabilities tables p.1 s p.2 : Outcome E ResidualState) =
        .ok ⟨s.arithmetic.encodeBit (contextAt dsd channels luts tables s.status p).residual
            (probabilityAt probabilities (contextAt dsd channels luts tables s.status p)),
          nextStatus dsd channels s.status p⟩ := by
      rw [encodeResidualBit, bitContext_ok h hs hp]
      simp only [ok_bind, probabilityForPredict, index_of_getElem? hrow, pure_bind, index_of_getElem? hentry, assign_of_lt hch]
      rfl
    obtain ⟨s', hs', ha⟩ := residualLoop_ok hu h ps
      ⟨s.arithmetic.encodeBit (contextAt dsd channels luts tables s.status p).residual
        (probabilityAt probabilities (contextAt dsd channels luts tables s.status p)),
        nextStatus dsd channels s.status p⟩ (fun q hq => hps q (by simp [hq])) (length_nextStatus hs)
    refine ⟨s', ?_, ha⟩
    rw [List.foldlM_cons, hstep]
    exact hs'

/-- **The coding pass**: the code is the code of the marker bit and the walk's symbols. -/
theorem encodeResiduals_ok {E : Type} (hu : Usable probabilities luts.length) (h : Fits dsd channels luts tables) (z : ℤ) :
    (encodeResiduals dsd channels luts probabilities tables z : Outcome E (List Bool)) =
      .ok (ArithmeticBitEncoder.new.encodeAll
        ((false, probDstXBit z) ::
          symbolsFrom dsd channels luts tables probabilities initialStatus (positions channels))).finish := by
  obtain ⟨s, hs, ha⟩ := residualLoop_ok (E := E) hu h (positions channels)
    ⟨ArithmeticBitEncoder.new.encodeBit false (probDstXBit z), initialStatus⟩ (fun _ hp => hp) List.length_replicate
  rw [encodeResiduals, forRange_grid (f := fun bitIndex =>
    encodeResidualBit dsd channels luts probabilities tables bitIndex) fun _ _ _ => rfl]
  simp only [positions] at hs
  rw [hs]
  simp only [ok_bind, ha, ArithmeticBitEncoder.encodeAll, List.foldl_cons, positions]
  rfl

/-! ## The counting pass -/

theorem binProbability_range (z t : ℕ) : 1 ≤ binProbability z t ∧ binProbability z t ≤ 128 := by
  unfold binProbability
  split <;> omega

/-- Trimming removes entries from the end, but not the first one. -/
theorem trimReversed_suffix {α : Type} [DecidableEq α] (x : α) :
    ∀ row : List α, trimReversed x row <:+ row ∧ (row ≠ [] → trimReversed x row ≠ [])
  | [] => by simp [trimReversed]
  | [p] => by simp [trimReversed]
  | p :: q :: row => by
    unfold trimReversed
    split
    · obtain ⟨h1, h2⟩ := trimReversed_suffix x (q :: row)
      exact ⟨h1.trans (List.suffix_cons _ _), fun _ => h2 (by simp)⟩
    · simp

theorem trimTrailing_prefix {α : Type} [DecidableEq α] (x : α) (row : List α) :
    trimTrailing x row <+: row ∧ (row ≠ [] → trimTrailing x row ≠ []) := by
  obtain ⟨h1, h2⟩ := trimReversed_suffix x row.reverse
  unfold trimTrailing
  refine ⟨by simpa using List.reverse_prefix.2 h1, fun h => ?_⟩
  rw [ne_eq, List.reverse_eq_nil_iff]
  exact h2 (by rwa [ne_eq, List.reverse_eq_nil_iff])

theorem countLoop_ok {E : Type} (h : Fits dsd channels luts tables) : ∀ (ps : List (ℕ × ℕ)) (s : BinCounts),
    (∀ p ∈ ps, p ∈ positions channels) → s.status.length = maxChannels → Rect luts.length probabilityTableLen s.zeros →
      Rect luts.length probabilityTableLen s.totals →
    ∃ s' : BinCounts, (ps.foldlM (fun s p => countBit dsd channels luts luts.length tables p.1 s p.2) s :
        Outcome E BinCounts) = .ok s' ∧ Rect luts.length probabilityTableLen s'.zeros ∧
      Rect luts.length probabilityTableLen s'.totals
  | [], s, _, _, hz, ht => ⟨s, rfl, hz, ht⟩
  | p :: ps, s, hps, hs, hz, ht => by
    have hp := hps p (by simp)
    obtain ⟨_, hlt⟩ := h.table_mem hp
    have hch : p.2 < s.status.length := by
      have := (mem_grid.1 hp).2
      have := h.channels_le
      omega
    have hbin : ∀ z, probabilityBin z probabilityTableLen < probabilityTableLen := by
      intro z
      unfold probabilityBin
      simp only [probabilityTableLen]
      omega
    -- a count is read, increased and written back
    have hread : ∀ {xss : List (List ℕ)}, Rect luts.length probabilityTableLen xss → ∀ z, ∃ n,
        at2 xss (tables.getD p.2 0) (probabilityBin z probabilityTableLen) = some n := by
      intro xss hx z
      have hrow := getElem?_getD ([] : List ℕ) (show tables.getD p.2 0 < xss.length by rw [hx.length]; exact hlt)
      have hl := hx.row _ (List.mem_of_getElem? hrow)
      exact ⟨_, by rw [at2, hrow, Option.bind_some, getElem?_getD 0 (by rw [hl]; exact hbin z)]⟩
    obtain ⟨c, hc⟩ : ∃ c, contextAt dsd channels luts tables s.status p = c := ⟨_, rfl⟩
    have hct : c.table = tables.getD p.2 0 := by rw [← hc]; rfl
    obtain ⟨nt, hnt⟩ := hread ht c.predict
    obtain ⟨nz, hnz⟩ := hread hz c.predict
    obtain ⟨totals, hset, hrt, _⟩ := assign2_spec (E := E) ht hlt (hbin c.predict) (saturatingAdd32 nt 1)
    obtain ⟨zeros, hsetz, hrz, _⟩ := assign2_spec (E := E) hz hlt (hbin c.predict) (saturatingAdd32 nz 1)
    rw [← hct] at hnt hnz hset hsetz
    obtain ⟨s₁, hstep, hs₁, hz₁, ht₁⟩ : ∃ s₁, (countBit dsd channels luts luts.length tables p.1 s p.2 :
        Outcome E BinCounts) = .ok s₁ ∧ s₁.status.length = maxChannels ∧ Rect luts.length probabilityTableLen s₁.zeros ∧
        Rect luts.length probabilityTableLen s₁.totals := by
      rw [countBit, bitContext_ok h hs hp, hc]
      simp only [ok_bind, index2_of_at2 hnt, index2_of_at2 hnz, pure_bind, hset, hsetz, assign_of_lt hch]
      cases c.residual
      · exact ⟨_, rfl, by simpa using hs, hrz, hrt⟩
      · exact ⟨_, rfl, by simpa using hs, hz, hrt⟩
    obtain ⟨s', hs', hz', ht'⟩ := countLoop_ok h ps s₁ (fun q hq => hps q (by simp [hq])) hs₁ hz₁ ht₁
    refine ⟨s', ?_, hz', ht'⟩
    rw [List.foldlM_cons, hstep]
    exact hs'

/-- **The counting pass** returns one usable table per filter. -/
theorem deriveProbabilityTables_ok {E : Type} (h : Fits dsd channels luts tables) (hne : luts ≠ []) :
    ∃ probabilities, (deriveProbabilityTables dsd channels luts tables : Outcome E _) = .ok probabilities ∧
      Usable probabilities luts.length := by
  have hcount : max luts.length 1 = luts.length := by
    have := List.length_pos_iff.2 hne
    omega
  obtain ⟨s, hs, hz, ht⟩ := countLoop_ok (E := E) h (positions channels)
    ⟨List.replicate luts.length (List.replicate probabilityTableLen 0),
      List.replicate luts.length (List.replicate probabilityTableLen 0), initialStatus⟩ (fun _ hp => hp)
    List.length_replicate (rect_replicate _ _ _) (rect_replicate _ _ _)
  refine ⟨(s.zeros.zip s.totals).map fun counts =>
    trimTrailing 64 (List.zipWith binProbability counts.1 counts.2), ?_, ?_, ?_⟩
  · rw [deriveProbabilityTables, hcount]
    rw [forRange_grid (f := fun bitIndex => countBit dsd channels luts luts.length tables bitIndex) fun _ _ _ => rfl]
    simp only [positions] at hs
    rw [hs]
    rfl
  · simp [hz.length, ht.length]
  · intro row hrow
    obtain ⟨⟨z, t⟩, hmem, rfl⟩ := List.mem_map.1 hrow
    obtain ⟨hzm, htm⟩ := List.of_mem_zip hmem
    have hzl := hz.row _ hzm
    have htl := ht.row _ htm
    obtain ⟨hpre, hnn⟩ := trimTrailing_prefix 64 (List.zipWith binProbability z t)
    have hlen : (List.zipWith binProbability z t).length = probabilityTableLen := by simp [hzl, htl]
    refine ⟨hnn ?_, ?_, ?_⟩
    · rw [ne_eq, ← List.length_eq_zero_iff, hlen]
      decide
    · rw [← hlen]
      exact hpre.length_le
    · intro x hx
      have hx' := hpre.mem hx
      obtain ⟨a, b, rfl⟩ : ∃ a b, binProbability a b = x := by
        obtain ⟨i, hi, rfl⟩ := List.getElem_of_mem hx'
        exact ⟨_, _, (List.getElem_zipWith).symm⟩
      exact binProbability_range a b

end Passes

end Dst
