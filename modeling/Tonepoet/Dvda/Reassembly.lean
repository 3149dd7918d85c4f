import Mathlib.Algebra.BigOperators.Group.List.Basic
import Tonepoet.Dvda.Reassembler

/-!
# Reassembly and packet boundaries

Where access units follow one another and only the end of the stream is padded, what is pending is always
a beginning of what is still to come, so every boundary that the drain checks is one, however the payload
was cut. Padding between two units is different: cut before the padding and inside the unit after it, the
carry begins with zeros and no unit in it can be verified.
-/

namespace Dvda

open MlpAccessUnitReassembler

/-- Bytes that declare their own length. -/
structure AccessUnit where
  bytes : List UInt8
  declared : mlpDeclaredAccessUnitBytes bytes = some bytes.length

/-- Access units, each with the number of zero bytes after it. -/
abbrev PaddedStream := List (AccessUnit × ℕ)

def PaddedStream.bytes (stream : PaddedStream) : List UInt8 :=
  stream.flatMap fun p => p.1.bytes ++ List.replicate p.2 0

def PaddedStream.units (stream : PaddedStream) : List UInt8 := stream.flatMap fun p => p.1.bytes

def PaddedStream.padding (stream : PaddedStream) : ℕ := (stream.map Prod.snd).sum

/-- The payloads are pushed one by one and the reassembler is finished. -/
def reassembleFrom (r : MlpAccessUnitReassembler) (payloads : List (List UInt8)) : Except DvdaDemuxError MlpAccessUnitReassembler := do
  finish (← payloads.foldlM pushPayload r)

/-- With a fresh strict reassembler. -/
def reassemble (payloads : List (List UInt8)) : Except DvdaDemuxError MlpAccessUnitReassembler := reassembleFrom new payloads

/-! ## Declared lengths -/

theorem declared_take_two : ∀ bytes : List UInt8, mlpDeclaredAccessUnitBytes (bytes.take 2) = mlpDeclaredAccessUnitBytes bytes
  | [] | [_] | _ :: _ :: _ => rfl

theorem declared_append {bytes rest : List UInt8} (h : 2 ≤ bytes.length) :
    mlpDeclaredAccessUnitBytes (bytes ++ rest) = mlpDeclaredAccessUnitBytes bytes := by
  match bytes, h with
  | _ :: _ :: _, _ => rfl

theorem AccessUnit.four_le (u : AccessUnit) : 4 ≤ u.bytes.length := declared_pos u.declared

theorem allZero_iff {bytes : List UInt8} : allZero bytes = true ↔ ∀ b ∈ bytes, b = 0 := by
  rw [allZero, List.all_eq_true]
  exact forall₂_congr fun _ _ => beq_iff_eq

theorem declared_of_allZero {bytes : List UInt8} (h : allZero bytes = true) : mlpDeclaredAccessUnitBytes bytes = none := by
  match bytes, h with
  | [], _ => rfl
  | [_], _ => rfl
  | hi :: lo :: rest, h =>
    rw [allZero_iff] at h
    rw [h hi (by simp), h lo (by simp), mlpDeclaredAccessUnitBytes]
    exact if_neg (by decide)

theorem allZero_replicate (n : ℕ) : allZero (List.replicate n 0) = true :=
  allZero_iff.2 fun _ hb => (List.mem_replicate.1 hb).2

/-! ## The drain -/

variable {r r' : MlpAccessUnitReassembler}

theorem drain_done (h : r.drainBody = .ok (.done r')) : r.drainCompleteAccessUnits = .ok r' := by
  rw [drainCompleteAccessUnits]
  split <;> simp_all

theorem drain_again (h : r.drainBody = .ok (.again r')) : r.drainCompleteAccessUnits = r'.drainCompleteAccessUnits := by
  rw [drainCompleteAccessUnits]
  split <;> simp_all

theorem drain_fail {e : DvdaDemuxError} (h : r.drainBody = .error e) : r.drainCompleteAccessUnits = .error e := by
  rw [drainCompleteAccessUnits]
  split <;> simp_all

/-- A drain ends where less than a unit is pending. -/
def Stuck (r : MlpAccessUnitReassembler) : Prop :=
  r.pending.length < 2 ∨ ∃ len, mlpDeclaredAccessUnitBytes r.pending = some len ∧ r.pending.length < len

/-- What is pending and what is still to come are units and then zeros, and with them the output will be
    `out` and the padding `padding`. -/
def Framed (out : List UInt8) (padding : ℕ) (rest : List UInt8) (r : MlpAccessUnitReassembler) : Prop :=
  ∃ (units : List AccessUnit) (zeros : ℕ),
    r.pending ++ rest = units.flatMap AccessUnit.bytes ++ List.replicate zeros 0 ∧
      r.written ++ units.flatMap AccessUnit.bytes = out ∧ r.stats.paddingBytes + zeros = padding

variable {out rest : List UInt8} {padding : ℕ}

/-- A beginning of units and zeros that is long enough shows whether a unit is there. -/
theorem declared_of_framed {carry : List UInt8} {units : List AccessUnit} {zeros : ℕ} (hlen : 2 ≤ carry.length)
    (h : carry ++ rest = units.flatMap AccessUnit.bytes ++ List.replicate zeros 0) :
    (allZero carry = true ∧ units = []) ∨
      ∃ u us, units = u :: us ∧ mlpDeclaredAccessUnitBytes carry = some u.bytes.length := by
  cases units with
  | nil =>
    refine .inl ⟨allZero_iff.2 fun b hb => ?_, rfl⟩
    have hmem : b ∈ List.replicate zeros (0 : UInt8) := by
      rw [List.flatMap_nil, List.nil_append] at h
      exact h ▸ List.mem_append_left _ hb
    exact (List.mem_replicate.1 hmem).2
  | cons u us =>
    refine .inr ⟨u, us, rfl, ?_⟩
    have hfour := u.four_le
    rw [← declared_append hlen, h, List.flatMap_cons, List.append_assoc, declared_append (by omega), u.declared]

/-- One pass of the drain. -/
theorem drainBody_framed (h : Framed out padding rest r) :
    (∃ r', r.drainBody = .ok (.done r') ∧ Framed out padding rest r' ∧ Stuck r') ∨
      ∃ r', r.drainBody = .ok (.again r') ∧ Framed out padding rest r' := by
  obtain ⟨units, zeros, hpending, hwritten, hpadding⟩ := h
  have hcarry : r.noteCarryBytes.pending = r.pending := rfl
  rw [drainBody]
  dsimp only
  rw [hcarry]
  by_cases hshort : r.pending.length < 2
  · exact .inl ⟨_, if_pos hshort, ⟨units, zeros, hpending, hwritten, hpadding⟩, .inl hshort⟩
  rw [if_neg hshort]
  rcases declared_of_framed (not_lt.1 hshort) hpending with ⟨hzero, rfl⟩ | ⟨u, us, rfl, hdeclared⟩
  · rw [List.flatMap_nil, List.nil_append, List.append_eq_replicate_iff] at hpending
    obtain ⟨hlength, -, hrest⟩ := hpending
    refine .inr ⟨_, if_pos hzero, [], rest.length, ?_, hwritten, ?_⟩
    · rw [List.flatMap_nil, List.nil_append, List.nil_append, ← hrest]
    · change r.stats.paddingBytes + r.pending.length + rest.length = padding
      omega
  have hzero : ¬ allZero r.pending = true := fun hzero => by
    rw [declared_of_allZero hzero] at hdeclared
    cases hdeclared
  rw [if_neg hzero, declared_take_two, hdeclared]
  dsimp only
  by_cases hincomplete : r.pending.length < u.bytes.length
  · rw [if_pos hincomplete]
    exact .inl ⟨_, rfl, ⟨u :: us, zeros, hpending, hwritten, hpadding⟩, .inr ⟨_, hdeclared, hincomplete⟩⟩
  rw [if_neg hincomplete]
  -- the unit is pending whole, and what follows it in the carry is a beginning of the rest
  obtain ⟨after, hafter⟩ : u.bytes <+: r.pending := by
    refine List.prefix_of_prefix_length_le ?_ (List.prefix_append r.pending rest) (not_lt.1 hincomplete)
    rw [hpending, List.flatMap_cons, List.append_assoc]
    exact List.prefix_append _ _
  have hnext : after ++ rest = us.flatMap AccessUnit.bytes ++ List.replicate zeros 0 := by
    rw [← hafter, List.flatMap_cons, List.append_assoc, List.append_assoc] at hpending
    exact List.append_cancel_left hpending
  have hboundary : (2 ≤ after.length && !allZero after && (mlpDeclaredAccessUnitBytes (after.take 2)).isNone) = false := by
    by_cases hlen : 2 ≤ after.length
    · rcases declared_of_framed hlen hnext with ⟨hzero, -⟩ | ⟨u', -, -, hdeclared'⟩
      · simp [hzero]
      · simp [declared_take_two, hdeclared']
    · simp [hlen]
  rw [← hafter, List.drop_left, hboundary, if_neg Bool.false_ne_true, List.take_left]
  refine .inr ⟨_, rfl, us, zeros, hnext, ?_, hpadding⟩
  rw [← hwritten, List.flatMap_cons, List.append_assoc]
  rfl

/-- The drain keeps to the frames and takes every whole one. -/
theorem drain_framed (h : Framed out padding rest r) :
    ∃ r', r.drainCompleteAccessUnits = .ok r' ∧ Framed out padding rest r' ∧ Stuck r' := by
  induction hn : r.pending.length using Nat.strong_induction_on generalizing r with
  | _ n ih =>
    rcases drainBody_framed h with ⟨r', hbody, hframed, hstuck⟩ | ⟨r', hbody, hframed⟩
    · exact ⟨r', drain_done hbody, hframed, hstuck⟩
    · obtain ⟨r'', hdrain, hr''⟩ := ih r'.pending.length (hn ▸ drainBody_pending_lt hbody) hframed rfl
      exact ⟨r'', (drain_again hbody).trans hdrain, hr''⟩

/-- A payload is added to the carry and drained. -/
theorem pushPayload_eq (r : MlpAccessUnitReassembler) (payload : List UInt8) :
    ∃ r₀ : MlpAccessUnitReassembler, r₀.written = r.written ∧ r₀.pending = r.pending ++ payload ∧
      r₀.stats.paddingBytes = r.stats.paddingBytes ∧ r.pushPayload payload = r₀.drainCompleteAccessUnits :=
  ⟨{ r with
      pending := r.pending ++ payload
      stats := { r.stats with
        inputPayloadBytes := r.stats.inputPayloadBytes + payload.length
        carryBytesMax := max r.stats.carryBytesMax (r.pending ++ payload).length }
      absoluteInputBytes := r.absoluteInputBytes + payload.length
      streamStarted := r.streamStarted || !payload.isEmpty }, rfl, rfl, rfl, rfl⟩

/-- A payload, whatever part of the stream it is. -/
theorem pushPayload_framed {payload : List UInt8} (h : Framed out padding (payload ++ rest) r) :
    ∃ r', r.pushPayload payload = .ok r' ∧ Framed out padding rest r' ∧ Stuck r' := by
  obtain ⟨units, zeros, hpending, hwritten, hpadding⟩ := h
  obtain ⟨r₀, hwritten₀, hpending₀, hpadding₀, hpush⟩ := pushPayload_eq r payload
  rw [hpush]
  exact drain_framed ⟨units, zeros, by rw [hpending₀, List.append_assoc, hpending], hwritten₀ ▸ hwritten, hpadding₀ ▸ hpadding⟩

theorem pushPayloads_framed : ∀ {payloads : List (List UInt8)} {r : MlpAccessUnitReassembler},
    Framed out padding (payloads.flatten ++ rest) r → ∃ r', payloads.foldlM pushPayload r = .ok r' ∧ Framed out padding rest r'
  | [], r, h => ⟨r, rfl, h⟩
  | payload :: payloads, r, h => by
    rw [List.flatten_cons, List.append_assoc] at h
    obtain ⟨r', hpush, hr', -⟩ := pushPayload_framed h
    obtain ⟨r'', hfold, hr''⟩ := pushPayloads_framed hr'
    exact ⟨r'', by rw [List.foldlM_cons, hpush]; exact hfold, hr''⟩

/-- Nothing that is stuck at the end of the stream is more than one zero. -/
theorem eq_zeros_of_stuck (h : Framed out padding [] r) (hstuck : Stuck r) :
    r.written = out ∧ allZero r.pending = true ∧ r.stats.paddingBytes + r.pending.length = padding := by
  obtain ⟨units, zeros, hpending, hwritten, hpadding⟩ := h
  rw [List.append_nil] at hpending
  cases units with
  | nil =>
    rw [List.flatMap_nil] at hpending hwritten
    rw [List.append_nil] at hwritten
    rw [List.nil_append] at hpending
    rw [hpending, List.length_replicate]
    exact ⟨hwritten, allZero_replicate _, hpadding⟩
  | cons u us =>
    exfalso
    have hfour := u.four_le
    have hlen : u.bytes.length ≤ r.pending.length := by
      rw [hpending, List.flatMap_cons, List.append_assoc, List.length_append]
      exact Nat.le_add_right _ _
    rcases hstuck with hshort | ⟨len, hdeclared, hincomplete⟩
    · omega
    · rw [hpending, List.flatMap_cons, List.append_assoc, declared_append (by omega), u.declared] at hdeclared
      obtain rfl := Option.some.inj hdeclared
      omega

theorem finish_framed (h : Framed out padding [] r) :
    ∃ r', r.finish = .ok r' ∧ r'.written = out ∧ r'.stats.paddingBytes = padding := by
  obtain ⟨r', hdrain, hframed, hstuck⟩ := drain_framed h
  obtain ⟨hwritten, hzero, hpadding⟩ := eq_zeros_of_stuck hframed hstuck
  rw [finish, hdrain]
  dsimp only [bind, Except.bind]
  by_cases hempty : r'.pending.isEmpty = true
  · rw [if_pos hempty]
    rw [List.isEmpty_iff] at hempty
    rw [hempty] at hpadding
    exact ⟨r', rfl, hwritten, hpadding⟩
  · rw [if_neg hempty, if_pos hzero]
    exact ⟨_, rfl, hwritten, hpadding⟩

/-! ## What has been written stays written -/

def MlpAccessUnitReassembler.Flow.state : Flow → MlpAccessUnitReassembler
  | .done r | .again r => r

theorem resyncOrFail_written {reason : String} (h : r.resyncOrFail reason = .ok r') : r'.written = r.written := by
  obtain ⟨_, -, -, rfl | ⟨_, _, _, -, -, -, -, rfl⟩⟩ := resyncOrFail_cases h
  all_goals rfl

theorem drainBody_written {flow : Flow} (h : r.drainBody = .ok flow) : r.written <+: flow.state.written := by
  have hresync : ∀ reason, (r.noteCarryBytes.resyncOrFail reason).map Flow.again = .ok flow → r.written <+: flow.state.written := by
    intro reason hreason
    rcases heq : r.noteCarryBytes.resyncOrFail reason with e | r'
    · rw [heq] at hreason
      cases hreason
    · rw [heq] at hreason
      cases hreason
      rw [Flow.state, resyncOrFail_written heq]
      exact List.prefix_rfl
  rw [drainBody] at h
  dsimp only at h
  split_ifs at h with hshort hzero
  · cases h
    exact List.prefix_rfl
  · cases h
    exact List.prefix_rfl
  split at h
  · exact hresync _ h
  · split_ifs at h with hincomplete hboundary
    · cases h
      exact List.prefix_rfl
    · exact hresync _ h
    · cases h
      exact List.prefix_append _ _

/-- What every pass of the loop keeps, the drain keeps. -/
theorem drain_invariant (I : MlpAccessUnitReassembler → Prop) (hbody : ∀ {r flow}, I r → r.drainBody = .ok flow → I flow.state)
    (hr : I r) (h : r.drainCompleteAccessUnits = .ok r') : I r' := by
  induction hn : r.pending.length using Nat.strong_induction_on generalizing r with
  | _ n ih =>
    rcases hpass : r.drainBody with e | (r'' | r'')
    · rw [drain_fail hpass] at h
      cases h
    · rw [drain_done hpass] at h
      cases h
      exact hbody hr hpass
    · rw [drain_again hpass] at h
      exact ih r''.pending.length (hn ▸ drainBody_pending_lt hpass) (hbody hr hpass) h rfl

theorem drain_written (h : r.drainCompleteAccessUnits = .ok r') : r.written <+: r'.written :=
  drain_invariant (fun r' => r.written <+: r'.written) (fun hr hpass => hr.trans (drainBody_written hpass)) List.prefix_rfl h

theorem pushPayload_written {payload : List UInt8} (h : r.pushPayload payload = .ok r') : r.written <+: r'.written := by
  obtain ⟨r₀, hwritten, -, -, hpush⟩ := pushPayload_eq r payload
  rw [hpush] at h
  exact hwritten ▸ drain_written h

theorem finish_written (h : r.finish = .ok r') : r.written <+: r'.written := by
  rw [finish] at h
  rcases hdrain : r.drainCompleteAccessUnits with e | r''
  · rw [hdrain] at h
    cases h
  · rw [hdrain] at h
    dsimp only [bind, Except.bind] at h
    have hprefix := drain_written hdrain
    split_ifs at h
    all_goals (cases h; exact hprefix)

theorem reassembleFrom_cons {payload : List UInt8} (payloads : List (List UInt8)) (h : r.pushPayload payload = .ok r') :
    reassembleFrom r (payload :: payloads) = reassembleFrom r' payloads := by
  rw [reassembleFrom, List.foldlM_cons, h]
  rfl

theorem reassembleFrom_error {payload : List UInt8} {e : DvdaDemuxError} (payloads : List (List UInt8))
    (h : r.pushPayload payload = .error e) : reassembleFrom r (payload :: payloads) = .error e := by
  rw [reassembleFrom, List.foldlM_cons, h]
  rfl

theorem reassembleFrom_written : ∀ {payloads : List (List UInt8)} {r r' : MlpAccessUnitReassembler},
    reassembleFrom r payloads = .ok r' → r.written <+: r'.written
  | [], _, _, h => finish_written h
  | payload :: payloads, r, r', h => by
    rcases hpush : r.pushPayload payload with e | r''
    · rw [reassembleFrom_error payloads hpush] at h
      cases h
    · rw [reassembleFrom_cons payloads hpush] at h
      exact (pushPayload_written hpush).trans (reassembleFrom_written h)

/-! ## Padding before a unit -/

theorem declared_zero_cons (c : UInt8) (bytes : List UInt8) :
    mlpDeclaredAccessUnitBytes (0 :: c :: bytes) = if 2 ≤ c.toNat then some (c.toNat * 2) else none := by
  have hc := c.toNat_lt
  have hwords : ((0 : UInt8).toNat * 256 + c.toNat) &&& mlpAccessUnitLengthMask = c.toNat := by
    rw [show mlpAccessUnitLengthMask = 2 ^ 12 - 1 from rfl, Nat.and_two_pow_sub_one_eq_mod]
    simp only [UInt8.toNat_zero]
    omega
  rw [mlpDeclaredAccessUnitBytes, hwords]
  simp only [mlpAccessUnitLengthBytesPerWord, mlpMinAccessUnitBytes, mlpMaxAccessUnitBytes, mlpAccessUnitLengthMask]
  exact if_congr (by omega) rfl rfl

/-- Up to the first byte that is not zero, no unit can be verified. -/
theorem findNextVerified_zeros (k : ℕ) (c : UInt8) :
    findNextVerifiedMlpAccessUnitStart (List.replicate k 0 ++ [c]) = none := by
  rw [findNextVerifiedMlpAccessUnitStart, List.findSome?_eq_none_iff]
  intro offset hoffset
  rw [List.mem_range, List.length_append, List.length_replicate, List.length_singleton] at hoffset
  have hdrop : (List.replicate k (0 : UInt8) ++ [c]).drop offset = 0 :: (List.replicate (k - offset - 1) 0 ++ [c]) := by
    rw [List.drop_append_of_le_length (by rw [List.length_replicate]; omega), List.drop_replicate,
      show k - offset = (k - offset - 1) + 1 by omega, List.replicate_succ, List.cons_append, Nat.add_sub_cancel]
  rw [verifiedMlpStartAt]
  by_cases hend : offset + 2 > (List.replicate k (0 : UInt8) ++ [c]).length
  · exact if_pos hend
  rw [if_neg hend, declared_take_two, hdrop]
  cases hn : k - offset - 1 with
  | zero =>
    -- the last window ends in the byte that is not zero, and what it declares is not there
    rw [List.replicate_zero, List.nil_append, declared_zero_cons]
    by_cases htwo : 2 ≤ c.toNat
    · rw [if_pos htwo]
      refine if_pos ?_
      rw [List.length_append, List.length_replicate, List.length_singleton]
      omega
    · rw [if_neg htwo]
  | succ n =>
    rw [List.replicate_succ, List.cons_append, declared_zero_cons]
    rfl

/-- A carry that begins with zeros and shows no more than one byte of the unit after them. -/
theorem drainBody_zeros {m : ℕ} {c : UInt8} (hc : c ≠ 0) (hm : 1 ≤ m) (hfalse : 2 ≤ m ∨ c.toNat < 2)
    (hpending : r.pending = List.replicate m 0 ++ [c]) : ∃ e, r.drainBody = .error e := by
  obtain ⟨k, rfl⟩ := Nat.exists_eq_add_of_le' hm
  have hcarry : r.noteCarryBytes.pending = 0 :: (List.replicate k 0 ++ [c]) := by
    change r.pending = _
    rw [hpending, List.replicate_succ, List.cons_append]
  have hshort : ¬ (0 :: (List.replicate k (0 : UInt8) ++ [c])).length < 2 := by
    rw [List.length_cons, List.length_append, List.length_singleton]
    omega
  have hzero : ¬ allZero (0 :: (List.replicate k (0 : UInt8) ++ [c])) = true := fun hzero =>
    hc (allZero_iff.1 hzero c (by simp))
  have hdeclared : mlpDeclaredAccessUnitBytes (0 :: (List.replicate k (0 : UInt8) ++ [c])) = none := by
    cases k with
    | zero =>
      rw [List.replicate_zero, List.nil_append, declared_zero_cons, if_neg (by omega)]
    | succ n =>
      rw [List.replicate_succ, List.cons_append, declared_zero_cons]
      rfl
  rw [drainBody]
  dsimp only
  rw [hcarry, if_neg hshort, if_neg hzero, declared_take_two, hdeclared]
  dsimp only
  rw [resyncOrFail, hcarry, List.drop_succ_cons, List.drop_zero, findNextVerified_zeros k c]
  exact ⟨_, rfl⟩

theorem not_allZero_of_declared {bytes : List UInt8} {len : ℕ} (h : mlpDeclaredAccessUnitBytes bytes = some len) :
    ¬ allZero bytes = true := fun hzero => by
  rw [declared_of_allZero hzero] at h
  cases h

/-- The drain waits for as many bytes as the first two of the carry say. -/
theorem drainBody_incomplete {len : ℕ} (hlen : 2 ≤ r.pending.length) (hdeclared : mlpDeclaredAccessUnitBytes r.pending = some len)
    (hincomplete : r.pending.length < len) : r.drainBody = .ok (.done r.noteCarryBytes) := by
  have hcarry : r.noteCarryBytes.pending = r.pending := rfl
  rw [drainBody]
  dsimp only
  rw [hcarry, if_neg (not_lt.2 hlen), if_neg (not_allZero_of_declared hdeclared), declared_take_two, hdeclared]
  exact if_pos hincomplete

theorem finish_incomplete {len : ℕ} (hlen : 2 ≤ r.pending.length) (hdeclared : mlpDeclaredAccessUnitBytes r.pending = some len)
    (hincomplete : r.pending.length < len) (h : r.finish = .ok r') : r'.written = r.written := by
  rw [finish, drain_done (drainBody_incomplete hlen hdeclared hincomplete)] at h
  dsimp only [bind, Except.bind] at h
  split_ifs at h
  all_goals (cases h; rfl)

/-- A carry of as many bytes as its first two say is written, whatever it is. -/
theorem drainBody_whole (hdeclared : mlpDeclaredAccessUnitBytes r.pending = some r.pending.length) :
    ∃ r', r.drainBody = .ok (.again r') ∧ r'.written = r.written ++ r.pending := by
  have hcarry : r.noteCarryBytes.pending = r.pending := rfl
  have hfour := declared_pos hdeclared
  rw [drainBody]
  dsimp only
  rw [hcarry, if_neg (by omega), if_neg (not_allZero_of_declared hdeclared), declared_take_two, hdeclared]
  dsimp only
  rw [if_neg (lt_irrefl _), List.drop_length, List.take_length]
  exact ⟨_, rfl, rfl⟩

/-- Padding and the unit after it, up to the first byte that is not zero. -/
theorem AccessUnit.exists_first (u : AccessUnit) (z : ℕ) :
    ∃ (m : ℕ) (c : UInt8) (tail : List UInt8), z ≤ m ∧ c ≠ 0 ∧
      List.replicate z 0 ++ u.bytes = List.replicate m 0 ++ c :: tail := by
  have hdeclared := u.declared
  match hbytes : u.bytes with
  | [] => rw [hbytes] at hdeclared; cases hdeclared
  | [_] => rw [hbytes] at hdeclared; cases hdeclared
  | hi :: lo :: tail =>
    by_cases hhi : hi = 0
    · refine ⟨z + 1, lo, tail, Nat.le_succ z, fun hlo => ?_, ?_⟩
      · rw [hbytes, hhi, hlo, declared_zero_cons] at hdeclared
        cases hdeclared
      · rw [hhi, List.replicate_succ', List.append_assoc, List.singleton_append]
    · exact ⟨z, hi, lo :: tail, le_rfl, hhi, rfl⟩

/-- Units without padding are written as they come, and nothing is left. -/
theorem pushPayload_units (units : List AccessUnit) :
    ∃ r, new.pushPayload (units.flatMap AccessUnit.bytes) = .ok r ∧ r.written = units.flatMap AccessUnit.bytes ∧ r.pending = [] := by
  have hnew : Framed (units.flatMap AccessUnit.bytes) 0 (units.flatMap AccessUnit.bytes ++ []) new :=
    ⟨units, 0, rfl, rfl, rfl⟩
  obtain ⟨r, hpush, hframed, hstuck⟩ := pushPayload_framed hnew
  obtain ⟨hwritten, -, hpadding⟩ := eq_zeros_of_stuck hframed hstuck
  exact ⟨r, hpush, hwritten, List.eq_nil_of_length_eq_zero (by omega)⟩

/-- Padding before a unit has a cut that fails. -/
theorem exists_failing_cut (units : List AccessUnit) {z : ℕ} (hz : 1 ≤ z) (v : AccessUnit) (tail more : List UInt8) :
    ∃ payloads : List (List UInt8),
      payloads.flatten = units.flatMap AccessUnit.bytes ++ (List.replicate z 0 ++ v.bytes ++ tail) ∧
        ∀ r, reassemble payloads = .ok r → r.written ≠ units.flatMap AccessUnit.bytes ++ (v.bytes ++ more) := by
  obtain ⟨r₁, hunits, hwritten, hpending⟩ := pushPayload_units units
  obtain ⟨m, c, first, hm, hc, hfirst⟩ := v.exists_first z
  by_cases hfalse : 2 ≤ m ∨ c.toNat < 2
  · refine ⟨[units.flatMap AccessUnit.bytes, List.replicate m 0 ++ [c], first ++ tail], ?_, fun r hr => ?_⟩
    · simp [hfirst]
    obtain ⟨r₀, -, hpending₀, -, hpush⟩ := pushPayload_eq r₁ (List.replicate m 0 ++ [c])
    rw [hpending, List.nil_append] at hpending₀
    obtain ⟨e, hbody⟩ := drainBody_zeros hc (hz.trans hm) hfalse hpending₀
    rw [reassemble, reassembleFrom_cons _ hunits, reassembleFrom_error _ (hpush.trans (drain_fail hbody))] at hr
    cases hr
  -- one zero and a byte that reads as a length: the zero is taken for the first byte of a unit
  obtain ⟨rfl, rfl⟩ : m = 1 ∧ z = 1 := by omega
  rw [not_or, not_lt] at hfalse
  have hv : v.bytes = c :: first := List.append_cancel_left hfirst
  have hdeclared : ∀ bytes, mlpDeclaredAccessUnitBytes (0 :: c :: bytes) = some (c.toNat * 2) := fun bytes => by
    rw [declared_zero_cons, if_pos hfalse.2]
  have hrest : List.replicate 1 0 ++ v.bytes ++ tail = 0 :: c :: (first ++ tail) := by rw [hv]; rfl
  have hother : ∀ bytes : List UInt8, ¬ 0 :: bytes <+: v.bytes ++ more := fun bytes hprefix => by
    rw [hv, List.cons_append, List.cons_prefix_cons] at hprefix
    exact hc hprefix.1.symm
  by_cases hshort : (0 :: c :: (first ++ tail)).length < c.toNat * 2
  · refine ⟨[units.flatMap AccessUnit.bytes, 0 :: c :: (first ++ tail)], ?_, fun r hr hout => ?_⟩
    · simp only [List.flatten_cons, List.flatten_nil, List.append_nil, hrest]
    obtain ⟨r₂, hwritten₂, hpending₂, -, hpush⟩ := pushPayload_eq r₁ (0 :: c :: (first ++ tail))
    rw [hpending, List.nil_append] at hpending₂
    have hlen : 2 ≤ r₂.pending.length := by simp [hpending₂]
    have hbody := drainBody_incomplete hlen (hpending₂ ▸ hdeclared _) (hpending₂ ▸ hshort)
    rw [reassemble, reassembleFrom_cons _ hunits, reassembleFrom_cons _ (hpush.trans (drain_done hbody))] at hr
    have hkept : r.written = r₂.written := @finish_incomplete r₂.noteCarryBytes _ _ hlen (hpending₂ ▸ hdeclared _) (hpending₂ ▸ hshort) hr
    rw [hkept, hwritten₂, hwritten, hv] at hout
    simpa using congrArg List.length hout
  · have hlen : ((0 :: c :: (first ++ tail)).take (c.toNat * 2)).length = c.toNat * 2 := by
      rw [List.length_take]
      omega
    obtain ⟨k, hk⟩ : ∃ k, c.toNat * 2 = k + 2 := ⟨c.toNat * 2 - 2, by omega⟩
    refine ⟨[units.flatMap AccessUnit.bytes, (0 :: c :: (first ++ tail)).take (c.toNat * 2),
      (0 :: c :: (first ++ tail)).drop (c.toNat * 2)], ?_, fun r hr hout => ?_⟩
    · simp only [List.flatten_cons, List.flatten_nil, List.append_nil, List.take_append_drop, hrest]
    obtain ⟨r₂, hwritten₂, hpending₂, -, hpush⟩ := pushPayload_eq r₁ ((0 :: c :: (first ++ tail)).take (c.toNat * 2))
    rw [hpending, List.nil_append] at hpending₂
    have hwhole : mlpDeclaredAccessUnitBytes r₂.pending = some r₂.pending.length := by
      rw [hpending₂, hlen, hk, List.take_succ_cons, List.take_succ_cons, hdeclared, hk]
    obtain ⟨r₃, hbody, hwritten₃⟩ := drainBody_whole hwhole
    rw [reassemble, reassembleFrom_cons _ hunits] at hr
    rcases hdrain : r₃.drainCompleteAccessUnits with e | r₄
    · rw [reassembleFrom_error _ (hpush.trans ((drain_again hbody).trans hdrain))] at hr
      cases hr
    · rw [reassembleFrom_cons _ (hpush.trans ((drain_again hbody).trans hdrain))] at hr
      have hprefix := (drain_written hdrain).trans (reassembleFrom_written hr)
      rw [hwritten₃, hwritten₂, hwritten, hpending₂, hk, List.take_succ_cons, hout, List.prefix_append_right_inj] at hprefix
      exact hother _ hprefix

/-! ## Every cut -/

theorem PaddedStream.bytes_of_unpadded : ∀ {stream : PaddedStream}, (∀ p ∈ stream, p.2 = 0) → stream.bytes = stream.units
  | [], _ => rfl
  | (u, z) :: stream, h => by
    obtain rfl : z = 0 := h (u, z) List.mem_cons_self
    rw [bytes, units, List.flatMap_cons, List.flatMap_cons, ← bytes, ← units,
      bytes_of_unpadded fun p hp => h p (List.mem_cons_of_mem _ hp), List.replicate_zero, List.append_nil]

theorem PaddedStream.units_eq (stream : PaddedStream) : stream.units = (stream.map Prod.fst).flatMap AccessUnit.bytes := by
  rw [units, List.flatMap_map]

theorem PaddedStream.bytes_of_padded_end {stream : PaddedStream} (h : ∀ p ∈ stream.dropLast, p.2 = 0) :
    stream.bytes = stream.units ++ List.replicate stream.padding 0 := by
  rcases List.eq_nil_or_concat stream with rfl | ⟨init, p, rfl⟩
  · rfl
  rw [List.concat_eq_append, List.dropLast_concat] at h
  have hpadding : (init.map Prod.snd).sum = 0 := List.sum_eq_zero fun z hz => by
    obtain ⟨p, hp, rfl⟩ := List.mem_map.1 hz
    exact h p hp
  have hinit := bytes_of_unpadded h
  rw [bytes, units] at hinit
  rw [List.concat_eq_append, bytes, units, padding, List.flatMap_append, List.flatMap_append, hinit]
  simp [hpadding]

/-- The first padding that another unit follows. -/
theorem PaddedStream.exists_padded_unit : ∀ {stream : PaddedStream}, (∃ p ∈ stream.dropLast, p.2 ≠ 0) →
    ∃ (init : PaddedStream) (u : AccessUnit) (z : ℕ) (v : AccessUnit) (w : ℕ) (post : PaddedStream),
      stream = init ++ (u, z) :: (v, w) :: post ∧ (∀ p ∈ init, p.2 = 0) ∧ 1 ≤ z
  | [], ⟨_, hp, _⟩ => by cases hp
  | [_], ⟨_, hp, _⟩ => by cases hp
  | (u, z) :: (v, w) :: stream, ⟨p, hp, hne⟩ => by
    by_cases hz : z = 0
    · rw [List.dropLast_cons_cons] at hp
      rcases List.mem_cons.1 hp with rfl | hp
      · exact absurd hz hne
      obtain ⟨init, u', z', v', w', post, heq, hinit, hz'⟩ := exists_padded_unit ⟨p, hp, hne⟩
      refine ⟨(u, z) :: init, u', z', v', w', post, by rw [heq]; rfl, fun q hq => ?_, hz'⟩
      rcases List.mem_cons.1 hq with rfl | hq
      · exact hz
      · exact hinit q hq
    · exact ⟨[], u, z, v, w, stream, rfl, nofun, Nat.one_le_iff_ne_zero.2 hz⟩

/-- **Reassembly is independent of packet boundaries exactly where nothing but the end of the stream is
    padded.** There every cut writes the units and counts the padding; elsewhere some cut fails. -/
theorem reassemble_every_cut_iff (stream : PaddedStream) :
    (∀ payloads : List (List UInt8), payloads.flatten = stream.bytes →
      ∃ r, reassemble payloads = .ok r ∧ r.written = stream.units ∧ r.stats.paddingBytes = stream.padding) ↔
      ∀ p ∈ stream.dropLast, p.2 = 0 := by
  constructor
  · intro h
    by_contra hpadded
    push Not at hpadded
    obtain ⟨init, u, z, v, w, post, rfl, hinit, hz⟩ := PaddedStream.exists_padded_unit hpadded
    obtain ⟨payloads, hflatten, hfails⟩ :=
      exists_failing_cut (init.map Prod.fst ++ [u]) hz v (List.replicate w 0 ++ post.bytes) post.units
    have hunits : (init.map Prod.fst ++ [u]).flatMap AccessUnit.bytes = init.units ++ u.bytes := by
      rw [List.flatMap_append, ← PaddedStream.units_eq, List.flatMap_singleton]
    obtain ⟨r, hr, hwritten, -⟩ := h payloads (by
      rw [hflatten, hunits, ← PaddedStream.bytes_of_unpadded hinit]
      simp [PaddedStream.bytes])
    refine hfails r hr ?_
    rw [hwritten, hunits]
    simp [PaddedStream.units]
  · intro h payloads hflatten
    have hnew : Framed stream.units stream.padding (payloads.flatten ++ []) new := by
      refine ⟨stream.map Prod.fst, stream.padding, ?_, ?_, Nat.zero_add _⟩
      · rw [List.append_nil, hflatten, ← PaddedStream.units_eq, ← PaddedStream.bytes_of_padded_end h]
        rfl
      · rw [← PaddedStream.units_eq]
        rfl
    obtain ⟨r, hfold, hr⟩ := pushPayloads_framed hnew
    obtain ⟨r', hfinish, hr'⟩ := finish_framed hr
    exact ⟨r', by rw [reassemble, reassembleFrom, hfold]; exact hfinish, hr'⟩

/-- Two units with two zeros between them, in one payload. -/
theorem reassemble_padding_between : ∃ (stream : PaddedStream) (payloads : List (List UInt8)),
    payloads.flatten = stream.bytes ∧ (∀ p ∈ stream, mlpAccessUnitHasMajorSync p.1.bytes = true) ∧
      ¬ ∃ r, reassemble payloads = .ok r ∧ r.written = stream.units ∧ r.stats.paddingBytes = stream.padding := by
  let unit : AccessUnit := ⟨[0x00, 0x04, 0x10, 0x11, 0xF8, 0x72, 0x6F, 0xBA], by decide⟩
  refine ⟨[(unit, 2), (unit, 0)], [unit.bytes ++ [0, 0] ++ unit.bytes], rfl, ?_, ?_⟩
  · intro p hp
    rcases List.mem_cons.1 hp with rfl | hp
    · decide
    · rw [List.mem_singleton.1 hp]
      decide
  · rintro ⟨r, hr, -⟩
    let fed : MlpAccessUnitReassembler :=
      ⟨[], unit.bytes ++ [0, 0] ++ unit.bytes, .strict, true, 18, { inputPayloadBytes := 18, carryBytesMax := 18 }⟩
    have hbody : fed.drainBody.isOk = false := by decide +kernel
    rcases hbody' : fed.drainBody with e | flow
    · have hpush : new.pushPayload (unit.bytes ++ [0, 0] ++ unit.bytes) = .error e := drain_fail hbody'
      rw [reassemble, reassembleFrom_error [] hpush] at hr
      cases hr
    · rw [hbody'] at hbody
      cases hbody

end Dvda
