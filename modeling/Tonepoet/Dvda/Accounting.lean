import Tonepoet.Dvda.Reassembly
import Tonepoet.Rust

/-!
# Where the bytes of an MLP stream go

Every byte that comes in is written, counted under one of the reasons for dropping it, or still pending. A pass of the
drain moves bytes from the carry to one of the other places, whichever branch it takes.
-/

namespace Dvda

open MlpAccessUnitReassembler Rust

/-- A call that brings bytes. -/
inductive Push where
  | packet (subHeader : DvdaSubHeader) (payload : List UInt8)
  | payload (payload : List UInt8)

def MlpAccessUnitReassembler.push (self : MlpAccessUnitReassembler) : Push → Except DvdaDemuxError MlpAccessUnitReassembler
  | .packet subHeader payload => self.pushPacket subHeader payload
  | .payload payload => self.pushPayload payload

def pushes (self : MlpAccessUnitReassembler) (calls : List Push) : Except DvdaDemuxError MlpAccessUnitReassembler :=
  calls.foldlM MlpAccessUnitReassembler.push self

/-- The passes of the drain's loop. -/
inductive Drains : MlpAccessUnitReassembler → ℕ → Except DvdaDemuxError MlpAccessUnitReassembler → Prop where
  | fail {r : MlpAccessUnitReassembler} {e : DvdaDemuxError} (h : r.drainBody = .error e) : Drains r 1 (.error e)
  | done {r r' : MlpAccessUnitReassembler} (h : r.drainBody = .ok (.done r')) : Drains r 1 (.ok r')
  | again {r r' : MlpAccessUnitReassembler} {n : ℕ} {result : Except DvdaDemuxError MlpAccessUnitReassembler}
      (h : r.drainBody = .ok (.again r')) (hrest : Drains r' n result) : Drains r (n + 1) result

/-- The resyncs so far, against the limits of the mode. -/
def WithinLimits (r : MlpAccessUnitReassembler) : Prop :=
  match r.mode with
  | .strict => r.stats.resyncBytes = 0 ∧ r.stats.resyncEvents = 0
  | .tolerant maxResyncBytes maxResyncEvents => r.stats.resyncBytes ≤ maxResyncBytes ∧ r.stats.resyncEvents ≤ maxResyncEvents

/-- Every byte that came in is accounted for, but for some that are yet to be put in the carry. -/
structure Accounted (incoming : ℕ) (r : MlpAccessUnitReassembler) : Prop where
  input : r.stats.inputPayloadBytes = r.stats.framedBytes + r.stats.paddingBytes + r.stats.leadingFragmentBytes +
    r.stats.resyncBytes + r.stats.trailingFragmentBytes + r.pending.length + incoming
  written : r.written.length = r.stats.framedBytes
  limits : WithinLimits r
  trailing : r.stats.trailingFragmentBytes = 0

variable {r r' : MlpAccessUnitReassembler} {incoming : ℕ}

theorem drains (r : MlpAccessUnitReassembler) : ∃ passes ≤ r.pending.length + 1, Drains r passes r.drainCompleteAccessUnits := by
  induction hn : r.pending.length using Nat.strong_induction_on generalizing r with
  | _ n ih =>
    rcases hpass : r.drainBody with e | (r' | r')
    · rw [drain_fail hpass]
      exact ⟨1, Nat.le_add_left 1 n, .fail hpass⟩
    · rw [drain_done hpass]
      exact ⟨1, Nat.le_add_left 1 n, .done hpass⟩
    · have hlt := drainBody_pending_lt hpass
      obtain ⟨passes, hle, hrest⟩ := ih r'.pending.length (hn ▸ hlt) r' rfl
      rw [drain_again hpass]
      exact ⟨passes + 1, by omega, .again hpass hrest⟩

theorem Accounted.noteCarryBytes (h : Accounted incoming r) : Accounted incoming r.noteCarryBytes := ⟨h.input, h.written, h.limits, h.trailing⟩

/-- Pending bytes that turn out to be padding. -/
theorem Accounted.pad (h : Accounted incoming r) {n : ℕ} (hn : n ≤ r.pending.length) :
    Accounted incoming { r.addPadding n with pending := r.pending.drop n } where
  input := by
    have := h.input
    change r.stats.inputPayloadBytes = r.stats.framedBytes + (r.stats.paddingBytes + n) + r.stats.leadingFragmentBytes +
      r.stats.resyncBytes + r.stats.trailingFragmentBytes + (r.pending.drop n).length + incoming
    rw [List.length_drop]
    omega
  written := h.written
  limits := h.limits
  trailing := h.trailing

theorem Accounted.resync (h : Accounted incoming r) {reason : String} (hresync : r.resyncOrFail reason = .ok r') : Accounted incoming r' := by
  obtain ⟨discard, -, hle, rfl | ⟨maxBytes, maxEvents, stats, hmode, hbytes, hevents, ⟨offset, reason, rfl⟩, rfl⟩⟩ := resyncOrFail_cases hresync
  · exact h.pad hle
  · refine ⟨?_, h.written, ?_, h.trailing⟩
    · have := h.input
      change r.stats.inputPayloadBytes = r.stats.framedBytes + r.stats.paddingBytes + r.stats.leadingFragmentBytes +
        (r.stats.resyncBytes + discard) + r.stats.trailingFragmentBytes + (r.pending.drop discard).length + incoming
      rw [List.length_drop]
      omega
    · rw [WithinLimits]
      change match r.mode with | .strict => _ | .tolerant maxBytes maxEvents => _
      rw [hmode]
      exact ⟨hbytes, hevents⟩

/-- **A pass of the drain loses no byte.** -/
theorem Accounted.drainBody {flow : Flow} (h : Accounted incoming r) (hpass : r.drainBody = .ok flow) : Accounted incoming flow.state := by
  have hnote := h.noteCarryBytes
  have hresync : ∀ reason, (r.noteCarryBytes.resyncOrFail reason).map Flow.again = .ok flow → Accounted incoming flow.state := by
    intro reason hreason
    rcases heq : r.noteCarryBytes.resyncOrFail reason with e | r'
    · rw [heq] at hreason
      cases hreason
    · rw [heq] at hreason
      cases hreason
      exact hnote.resync heq
  rw [MlpAccessUnitReassembler.drainBody] at hpass
  dsimp only at hpass
  split_ifs at hpass with hshort hzero
  · cases hpass
    exact hnote
  · cases hpass
    have hpad := hnote.pad (le_refl r.noteCarryBytes.pending.length)
    rwa [List.drop_length] at hpad
  split at hpass
  · exact hresync _ hpass
  · rename_i len _
    split_ifs at hpass with hincomplete hboundary
    · cases hpass
      exact hnote
    · exact hresync _ hpass
    · cases hpass
      have hlen : len ≤ r.pending.length := not_lt.1 hincomplete
      refine ⟨?_, ?_, h.limits, h.trailing⟩
      · have := h.input
        change r.stats.inputPayloadBytes = r.stats.framedBytes + len + r.stats.paddingBytes + r.stats.leadingFragmentBytes +
          r.stats.resyncBytes + r.stats.trailingFragmentBytes + (r.pending.drop len).length + incoming
        rw [List.length_drop]
        omega
      · have := h.written
        change (r.written ++ r.pending.take len).length = r.stats.framedBytes + len
        rw [List.length_append, List.length_take]
        omega

theorem Accounted.drain (h : Accounted incoming r) (hdrain : r.drainCompleteAccessUnits = .ok r') : Accounted incoming r' :=
  drain_invariant (Accounted incoming) (fun hr hpass => hr.drainBody hpass) h hdrain

/-- Bytes that were counted as they came in, put in the carry. -/
theorem Accounted.pushPayloadAfterAccounting {payload : List UInt8} (h : Accounted payload.length r)
    (hpush : r.pushPayloadAfterAccounting payload = .ok r') : Accounted 0 r' := by
  have hcarry : Accounted 0 { r with pending := r.pending ++ payload } := by
    refine ⟨?_, h.written, h.limits, h.trailing⟩
    have := h.input
    change r.stats.inputPayloadBytes = r.stats.framedBytes + r.stats.paddingBytes + r.stats.leadingFragmentBytes +
      r.stats.resyncBytes + r.stats.trailingFragmentBytes + (r.pending ++ payload).length + 0
    rw [List.length_append]
    omega
  exact hcarry.noteCarryBytes.drain hpush

theorem Accounted.pushPayload {payload : List UInt8} (h : Accounted 0 r) (hpush : r.pushPayload payload = .ok r') : Accounted 0 r' := by
  rw [MlpAccessUnitReassembler.pushPayload] at hpush
  refine Accounted.pushPayloadAfterAccounting ?_ hpush
  refine ⟨?_, h.written, h.limits, h.trailing⟩
  have := h.input
  change r.stats.inputPayloadBytes + payload.length = r.stats.framedBytes + r.stats.paddingBytes + r.stats.leadingFragmentBytes +
    r.stats.resyncBytes + r.stats.trailingFragmentBytes + r.pending.length + payload.length
  omega

/-- The first packet loses what stands before its first access unit: padding, or the end of a unit cut off. -/
theorem Accounted.trim {subHeader : DvdaSubHeader} {payload rest : List UInt8} {offset : ℕ} (h : Accounted payload.length r)
    (htrim : r.trimInitialPacketFragment subHeader payload offset = .ok (r', rest)) : Accounted rest.length r' := by
  have hinput := h.input
  rw [trimInitialPacketFragment] at htrim
  split at htrim
  · cases htrim
    exact h
  split at htrim
  · rename_i first _
    split at htrim
    · cases htrim
    · rename_i hbeyond
      obtain ⟨rfl, rfl⟩ := Prod.mk.inj (Except.ok.inj htrim)
      have hlen : (payload.take first).length + (payload.drop first).length = payload.length := by
        rw [← List.length_append, List.take_append_drop]
      split
      · refine ⟨?_, h.written, h.limits, h.trailing⟩
        change r.stats.inputPayloadBytes = r.stats.framedBytes + (r.stats.paddingBytes + (payload.take first).length) +
          r.stats.leadingFragmentBytes + r.stats.resyncBytes + r.stats.trailingFragmentBytes + r.pending.length + (payload.drop first).length
        omega
      · refine ⟨?_, h.written, h.limits, h.trailing⟩
        change r.stats.inputPayloadBytes = r.stats.framedBytes + r.stats.paddingBytes +
          (r.stats.leadingFragmentBytes + (payload.take first).length) + r.stats.resyncBytes + r.stats.trailingFragmentBytes +
            r.pending.length + (payload.drop first).length
        omega
  · split at htrim
    · obtain ⟨rfl, rfl⟩ := Prod.mk.inj (Except.ok.inj htrim)
      refine ⟨?_, h.written, h.limits, h.trailing⟩
      change r.stats.inputPayloadBytes = r.stats.framedBytes + (r.stats.paddingBytes + payload.length) + r.stats.leadingFragmentBytes +
        r.stats.resyncBytes + r.stats.trailingFragmentBytes + r.pending.length + 0
      omega
    split at htrim
    · obtain ⟨rfl, rfl⟩ := Prod.mk.inj (Except.ok.inj htrim)
      exact ⟨h.input, h.written, h.limits, h.trailing⟩
    · cases htrim

theorem Accounted.pushPacket {subHeader : DvdaSubHeader} {payload : List UInt8} (h : Accounted 0 r)
    (hpush : r.pushPacket subHeader payload = .ok r') : Accounted 0 r' := by
  rw [MlpAccessUnitReassembler.pushPacket, bind_eq_ok] at hpush
  obtain ⟨⟨r₁, rest⟩, htrim, hpush⟩ := hpush
  refine Accounted.pushPayloadAfterAccounting (Accounted.trim ?_ htrim) hpush
  refine ⟨?_, h.written, h.limits, h.trailing⟩
  have := h.input
  change r.stats.inputPayloadBytes + payload.length = r.stats.framedBytes + r.stats.paddingBytes + r.stats.leadingFragmentBytes +
    r.stats.resyncBytes + r.stats.trailingFragmentBytes + r.pending.length + payload.length
  omega

theorem Accounted.pushes : ∀ {calls : List Push} {r : MlpAccessUnitReassembler}, Accounted 0 r → pushes r calls = .ok r' → Accounted 0 r'
  | [], _, h, hpush => by
    cases hpush
    exact h
  | call :: calls, r, h, hpush => by
    rw [Dvda.pushes, List.foldlM_cons, bind_eq_ok] at hpush
    obtain ⟨r₁, hcall, hrest⟩ := hpush
    refine Accounted.pushes ?_ hrest
    cases call with
    | packet subHeader payload => exact h.pushPacket hcall
    | payload payload => exact h.pushPayload hcall

/-- What is pending at the end is padding, or the beginning of a unit cut off. -/
theorem Accounted.finish (h : Accounted 0 r) (hfinish : r.finish = .ok r') :
    r'.stats.inputPayloadBytes = r'.stats.framedBytes + r'.stats.paddingBytes + r'.stats.leadingFragmentBytes +
      r'.stats.resyncBytes + r'.stats.trailingFragmentBytes ∧ r'.written.length = r'.stats.framedBytes ∧ WithinLimits r' := by
  rw [MlpAccessUnitReassembler.finish, bind_eq_ok] at hfinish
  obtain ⟨r₁, hdrain, hfinish⟩ := hfinish
  have h₁ := h.drain hdrain
  have hinput := h₁.input
  have htrailing := h₁.trailing
  split_ifs at hfinish with hempty hzero
  all_goals obtain rfl := Except.ok.inj hfinish
  · rw [List.isEmpty_iff] at hempty
    rw [hempty] at hinput
    exact ⟨hinput, h₁.written, h₁.limits⟩
  · refine ⟨?_, h₁.written, h₁.limits⟩
    change r₁.stats.inputPayloadBytes = r₁.stats.framedBytes + (r₁.stats.paddingBytes + r₁.pending.length) +
      r₁.stats.leadingFragmentBytes + r₁.stats.resyncBytes + r₁.stats.trailingFragmentBytes
    omega
  · refine ⟨?_, h₁.written, h₁.limits⟩
    change r₁.stats.inputPayloadBytes = r₁.stats.framedBytes + r₁.stats.paddingBytes + r₁.stats.leadingFragmentBytes +
      r₁.stats.resyncBytes + r₁.pending.length
    omega

theorem accounted_new (mode : MlpReassemblyMode) : Accounted 0 (newWithMode mode) :=
  ⟨rfl, rfl, by cases mode <;> simp [WithinLimits, newWithMode], rfl⟩

/-- **Every byte of an MLP stream is accounted for.** The loop of each call ends after at most one pass for each pending byte, and
one more; when the calls and `finish` succeed, each byte that came in is written or counted once, and resyncs kept to their limits. -/
theorem reassembly_accounts (mode : MlpReassemblyMode) (calls : List Push) :
    (∀ r : MlpAccessUnitReassembler, ∃ passes ≤ r.pending.length + 1, Drains r passes r.drainCompleteAccessUnits) ∧
    ∀ r, pushes (newWithMode mode) calls = .ok r → WithinLimits r ∧ ∀ r', r.finish = .ok r' →
      r'.stats.inputPayloadBytes = r'.stats.framedBytes + r'.stats.paddingBytes + r'.stats.leadingFragmentBytes +
        r'.stats.resyncBytes + r'.stats.trailingFragmentBytes ∧ r'.written.length = r'.stats.framedBytes ∧ WithinLimits r' := by
  refine ⟨drains, fun r hpushes => ?_⟩
  have haccounted := (accounted_new mode).pushes hpushes
  exact ⟨haccounted.limits, fun r' hfinish => haccounted.finish hfinish⟩

/-- A packet that starts in the middle of a unit, whose pointer says where the next one begins; its last unit is cut off. -/
theorem reassembly_accounts_fragments :
    ∃ r r', pushes (newWithMode .strict) [.packet ⟨mlpStreamId, 0, 6, 10, some 7, none, none⟩ [9, 9, 0, 2, 1, 1, 0, 3]] = .ok r ∧
      r.finish = .ok r' ∧ r'.stats.trailingFragmentBytes = 2 ∧
        r'.stats.inputPayloadBytes = r'.stats.framedBytes + r'.stats.paddingBytes + r'.stats.leadingFragmentBytes +
          r'.stats.resyncBytes + r'.stats.trailingFragmentBytes := by
  let stats : MlpAccessUnitReassemblyStats := { packetsSeen := 1, inputPayloadBytes := 8, leadingFragmentBytes := 2, carryBytesMax := 6 }
  let r₁ : MlpAccessUnitReassembler := ⟨[], [0, 2, 1, 1, 0, 3], .strict, true, 8, stats⟩
  let r₂ : MlpAccessUnitReassembler := ⟨[0, 2, 1, 1], [0, 3], .strict, true, 8, { stats with accessUnits := 1, framedBytes := 4 }⟩
  have hpass : r₁.drainBody = .ok (.again r₂) := by
    simp only [r₁, r₂, stats]
    decide
  have hcut : r₂.drainBody = .ok (.done r₂) := by
    simp only [r₂, stats]
    decide
  have hagain : r₂.drainCompleteAccessUnits = .ok r₂ := drain_done hcut
  have hdrain : r₁.drainCompleteAccessUnits = .ok r₂ := (drain_again hpass).trans hagain
  have hpush : pushes (newWithMode .strict) [.packet ⟨mlpStreamId, 0, 6, 10, some 7, none, none⟩ [9, 9, 0, 2, 1, 1, 0, 3]] = .ok r₂ := by
    change (r₁.drainCompleteAccessUnits >>= fun r => .ok r) = _
    rw [hdrain]
    rfl
  have hfinish : r₂.finish = .ok { r₂ with stats := { r₂.stats with trailingFragmentBytes := 2 }, pending := [] } := by
    rw [finish, hagain]
    rfl
  exact ⟨r₂, _, hpush, hfinish, rfl, (((reassembly_accounts .strict _).2 r₂ hpush).2 _ hfinish).1⟩

end Dvda
