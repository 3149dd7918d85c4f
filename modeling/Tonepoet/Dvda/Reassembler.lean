import Mathlib.Data.List.Basic
import Mathlib.Data.Nat.Bitwise
import Tonepoet.Dvda.SubHeader

/-!
# The MLP access-unit reassembler (dvda_demux.rs:157-555)

Payload bytes of DVD-Audio packets are collected until a whole access unit is pending, which is then
written. An access unit says its own length in the low twelve bits of its first two bytes. The writer is
the list of bytes it has been given and never fails; the counters are natural numbers, since a stream of
2^64 bytes does not exist.
-/

namespace Dvda

def mlpAccessUnitLengthMask : ℕ := 0x0fff
def mlpAccessUnitLengthBytesPerWord : ℕ := 2
def mlpMinAccessUnitBytes : ℕ := 4
def mlpMaxAccessUnitBytes : ℕ := mlpAccessUnitLengthMask * mlpAccessUnitLengthBytesPerWord
def mlpResyncLookaheadUnits : ℕ := 2
def mlpMajorSyncFba : List UInt8 := [0xF8, 0x72, 0x6F, 0xBA]
def mlpMajorSyncFbb : List UInt8 := [0xF8, 0x72, 0x6F, 0xBB]

inductive MlpReassemblyMode where
  | strict
  | tolerant (maxResyncBytes maxResyncEvents : ℕ)
  deriving DecidableEq, Repr

inductive MlpStartConfidence where
  | majorSync
  | consecutiveAccessUnits
  deriving DecidableEq, Repr

def MlpStartConfidence.label : MlpStartConfidence → String
  | .majorSync => "MajorSync"
  | .consecutiveAccessUnits => "ConsecutiveAccessUnits"

structure VerifiedMlpStart where
  offset : ℕ
  declaredLen : ℕ
  confidence : MlpStartConfidence
  deriving DecidableEq, Repr

structure MlpAccessUnitReassemblyStats where
  packetsSeen : ℕ := 0
  accessUnits : ℕ := 0
  inputPayloadBytes : ℕ := 0
  framedBytes : ℕ := 0
  paddingBytes : ℕ := 0
  leadingFragmentBytes : ℕ := 0
  carryBytesMax : ℕ := 0
  trailingFragmentBytes : ℕ := 0
  resyncEvents : ℕ := 0
  resyncBytes : ℕ := 0
  firstResyncOffset : Option ℕ := none
  firstResyncReason : Option String := none
  deriving DecidableEq, Repr

inductive DvdaDemuxError where
  | packetHandler (message : String)
  | mlpStrictResyncRejected (inputByte skippedBytes : ℕ) (confidence : String) (declaredLen : ℕ) (reason : String)
  deriving DecidableEq, Repr

structure MlpAccessUnitReassembler where
  /-- What the writer has been given. -/
  written : List UInt8
  pending : List UInt8
  mode : MlpReassemblyMode
  streamStarted : Bool
  absoluteInputBytes : ℕ
  stats : MlpAccessUnitReassemblyStats
  deriving DecidableEq, Repr

def allZero (bytes : List UInt8) : Bool := bytes.all fun byte => byte == 0

/-- `mlp_declared_access_unit_bytes` (dvda_demux.rs:474). -/
def mlpDeclaredAccessUnitBytes : List UInt8 → Option ℕ
  | hi :: lo :: _ =>
    let words := (hi.toNat * 256 + lo.toNat) &&& mlpAccessUnitLengthMask
    let bytes := words * mlpAccessUnitLengthBytesPerWord
    if mlpMinAccessUnitBytes ≤ bytes ∧ bytes ≤ mlpMaxAccessUnitBytes then some bytes else none
  | _ => none

def mlpAccessUnitHasMajorSync (accessUnit : List UInt8) : Bool :=
  8 ≤ accessUnit.length && ((accessUnit.drop 4).take 4 == mlpMajorSyncFba || (accessUnit.drop 4).take 4 == mlpMajorSyncFbb)

/-- `count_consecutive_mlp_access_units` (dvda_demux.rs:536), up to `maxUnits`. -/
def countConsecutiveMlpAccessUnits (bytes : List UInt8) : ℕ → ℕ
  | 0 => 0
  | maxUnits + 1 =>
    match mlpDeclaredAccessUnitBytes bytes with
    | none => 0
    | some len => if len > bytes.length then 0 else 1 + countConsecutiveMlpAccessUnits (bytes.drop len) maxUnits

def verifiedFollowingAccessUnit (bytes : List UInt8) : Bool :=
  match mlpDeclaredAccessUnitBytes bytes with
  | none => false
  | some len => len ≤ bytes.length

/-- `verified_mlp_start_at` (dvda_demux.rs:494). -/
def verifiedMlpStartAt (bytes : List UInt8) (offset : ℕ) : Option VerifiedMlpStart :=
  if offset + 2 > bytes.length then none
  else
    match mlpDeclaredAccessUnitBytes ((bytes.drop offset).take 2) with
    | none => none
    | some declaredLen =>
      if offset + declaredLen > bytes.length then none
      else
        let candidate := (bytes.drop offset).take declaredLen
        let after := bytes.drop (offset + declaredLen)
        if mlpAccessUnitHasMajorSync candidate && (after.isEmpty || allZero after || verifiedFollowingAccessUnit after) then
          some ⟨offset, declaredLen, .majorSync⟩
        else if countConsecutiveMlpAccessUnits (bytes.drop offset) mlpResyncLookaheadUnits ≥ mlpResyncLookaheadUnits then
          some ⟨offset, declaredLen, .consecutiveAccessUnits⟩
        else none

def findNextVerifiedMlpAccessUnitStart (bytes : List UInt8) : Option VerifiedMlpStart :=
  (List.range (bytes.length - 1)).findSome? fun offset => verifiedMlpStartAt bytes offset

namespace MlpAccessUnitReassembler

def newWithMode (mode : MlpReassemblyMode) : MlpAccessUnitReassembler :=
  ⟨[], [], mode, false, 0, {}⟩

def new : MlpAccessUnitReassembler := newWithMode .strict

def noteCarryBytes (self : MlpAccessUnitReassembler) : MlpAccessUnitReassembler :=
  { self with stats := { self.stats with carryBytesMax := max self.stats.carryBytesMax self.pending.length } }

def addPadding (self : MlpAccessUnitReassembler) (bytes : ℕ) : MlpAccessUnitReassembler :=
  { self with stats := { self.stats with paddingBytes := self.stats.paddingBytes + bytes } }

/-- `resync_or_fail` (dvda_demux.rs:409). -/
def resyncOrFail (self : MlpAccessUnitReassembler) (reason : String) : Except DvdaDemuxError MlpAccessUnitReassembler :=
  match findNextVerifiedMlpAccessUnitStart (self.pending.drop 1) with
  | none =>
    let length := self.pending.length
    .error (.packetHandler s!"MLP reassembly could not recover after {reason}; no verified access-unit start found in {length} pending byte(s)")
  | some start =>
    let discard := start.offset + 1
    let skipped := self.pending.take discard
    if allZero skipped then .ok { self.addPadding discard with pending := self.pending.drop discard }
    else
      match self.mode with
      | .strict =>
        .error (.mlpStrictResyncRejected (self.absoluteInputBytes - self.pending.length) discard start.confidence.label
          start.declaredLen reason)
      | .tolerant maxResyncBytes maxResyncEvents =>
        let nextResyncBytes := self.stats.resyncBytes + discard
        let nextResyncEvents := self.stats.resyncEvents + 1
        if nextResyncBytes > maxResyncBytes || nextResyncEvents > maxResyncEvents then
          .error (.packetHandler s!"MLP reassembly resync limit exceeded: events={nextResyncEvents} bytes={nextResyncBytes} limits events={maxResyncEvents} bytes={maxResyncBytes} ({reason})")
        else
          let stats :=
            if self.stats.firstResyncOffset.isNone then
              { self.stats with
                firstResyncOffset := some (self.absoluteInputBytes - self.pending.length), firstResyncReason := some reason }
            else self.stats
          .ok { self with
            stats := { stats with resyncBytes := nextResyncBytes, resyncEvents := nextResyncEvents }
            pending := self.pending.drop discard }

/-- Whether the loop goes on. -/
inductive Flow where
  | done (self : MlpAccessUnitReassembler)
  | again (self : MlpAccessUnitReassembler)
  deriving DecidableEq

/-- The loop body of `drain_complete_access_units` (dvda_demux.rs:360). -/
def drainBody (self : MlpAccessUnitReassembler) : Except DvdaDemuxError Flow :=
  let self := self.noteCarryBytes
  if self.pending.length < 2 then .ok (.done self)
  else if allZero self.pending then .ok (.again { self.addPadding self.pending.length with pending := [] })
  else
    match mlpDeclaredAccessUnitBytes (self.pending.take 2) with
    | none => (self.resyncOrFail "invalid or zero MLP access-unit length").map .again
    | some accessUnitBytes =>
      if self.pending.length < accessUnitBytes then .ok (.done self)
      else
        let after := self.pending.drop accessUnitBytes
        if 2 ≤ after.length && !allZero after && (mlpDeclaredAccessUnitBytes (after.take 2)).isNone then
          (self.resyncOrFail "MLP access-unit length did not land on the next boundary").map .again
        else
          .ok (.again { self with
            written := self.written ++ self.pending.take accessUnitBytes
            pending := after
            stats := { self.stats with
              accessUnits := self.stats.accessUnits + 1, framedBytes := self.stats.framedBytes + accessUnitBytes } })

/-- What a resync that succeeds drops from the carry: padding, or bytes within the limits of the mode. -/
theorem resyncOrFail_cases {self self' : MlpAccessUnitReassembler} {reason : String} (h : self.resyncOrFail reason = .ok self') :
    ∃ discard, 1 ≤ discard ∧ discard ≤ self.pending.length ∧
      (self' = { self.addPadding discard with pending := self.pending.drop discard } ∨
        ∃ maxResyncBytes maxResyncEvents stats, self.mode = .tolerant maxResyncBytes maxResyncEvents ∧
          self.stats.resyncBytes + discard ≤ maxResyncBytes ∧ self.stats.resyncEvents + 1 ≤ maxResyncEvents ∧
          (∃ offset reason, stats = { self.stats with firstResyncOffset := offset, firstResyncReason := reason }) ∧
          self' = { self with
            stats := { stats with resyncBytes := self.stats.resyncBytes + discard, resyncEvents := self.stats.resyncEvents + 1 }
            pending := self.pending.drop discard }) := by
  rw [resyncOrFail] at h
  rcases hfind : findNextVerifiedMlpAccessUnitStart (self.pending.drop 1) with - | start
  · rw [hfind] at h
    cases h
  rw [hfind] at h
  dsimp only at h
  have hdiscard : start.offset + 1 ≤ self.pending.length := by
    obtain ⟨offset, hoffset, hverified⟩ := List.exists_of_findSome?_eq_some hfind
    have heq : start.offset = offset := by
      rw [verifiedMlpStartAt] at hverified
      split at hverified
      · cases hverified
      · split at hverified
        · cases hverified
        · dsimp only at hverified
          split_ifs at hverified <;> · cases hverified; rfl
    rw [List.mem_range, List.length_drop] at hoffset
    omega
  refine ⟨start.offset + 1, Nat.succ_pos _, hdiscard, ?_⟩
  by_cases hskipped : allZero (self.pending.take (start.offset + 1)) = true
  · rw [if_pos hskipped] at h
    cases h
    exact .inl rfl
  rw [if_neg hskipped] at h
  rcases hmode : self.mode with - | ⟨maxBytes, maxEvents⟩
  · rw [hmode] at h
    cases h
  rw [hmode] at h
  dsimp only at h
  by_cases hlimit : (self.stats.resyncBytes + (start.offset + 1) > maxBytes || self.stats.resyncEvents + 1 > maxEvents) = true
  · rw [if_pos hlimit] at h
    cases h
  · rw [if_neg hlimit] at h
    cases h
    simp only [gt_iff_lt, Bool.or_eq_true, decide_eq_true_eq, not_or, not_lt] at hlimit
    refine .inr ⟨maxBytes, maxEvents, _, rfl, hlimit.1, hlimit.2, ?_, rfl⟩
    split
    · exact ⟨_, _, rfl⟩
    · exact ⟨_, _, rfl⟩

theorem resyncOrFail_pending_lt {self self' : MlpAccessUnitReassembler} {reason : String} (hne : self.pending ≠ [])
    (h : self.resyncOrFail reason = .ok self') : self'.pending.length < self.pending.length := by
  have hpos := List.length_pos_iff.2 hne
  have hdrop : ∀ n, 1 ≤ n → (self.pending.drop n).length < self.pending.length := by
    intro n hn
    rw [List.length_drop]
    omega
  obtain ⟨discard, hdiscard, -, rfl | ⟨_, _, _, _, _, _, _, rfl⟩⟩ := resyncOrFail_cases h
  · exact hdrop discard hdiscard
  · exact hdrop discard hdiscard

theorem declared_pos : ∀ {bytes : List UInt8} {len : ℕ}, mlpDeclaredAccessUnitBytes bytes = some len → 4 ≤ len
  | [], _, h => nomatch h
  | [_], _, h => nomatch h
  | hi :: lo :: _, len, h => by
    rw [mlpDeclaredAccessUnitBytes] at h
    split_ifs at h with hlen
    obtain rfl := Option.some.inj h
    exact hlen.1

/-- Every pass that goes on has taken bytes from the carry. -/
theorem drainBody_pending_lt {self self' : MlpAccessUnitReassembler} (h : self.drainBody = .ok (.again self')) :
    self'.pending.length < self.pending.length := by
  rw [drainBody] at h
  dsimp only at h
  by_cases hshort : self.noteCarryBytes.pending.length < 2
  · rw [if_pos hshort] at h
    cases h
  rw [if_neg hshort] at h
  have hpos : 2 ≤ self.pending.length := not_lt.1 hshort
  have hne : self.noteCarryBytes.pending ≠ [] := List.length_pos_iff.1 (Nat.zero_lt_two.trans_le hpos)
  by_cases hzero : allZero self.noteCarryBytes.pending = true
  · rw [if_pos hzero] at h
    cases h
    exact Nat.zero_lt_two.trans_le hpos
  rw [if_neg hzero] at h
  have hresync : ∀ reason, (self.noteCarryBytes.resyncOrFail reason).map Flow.again = .ok (.again self') →
      self'.pending.length < self.pending.length := by
    intro reason hreason
    rcases heq : self.noteCarryBytes.resyncOrFail reason with e | r
    · rw [heq] at hreason
      cases hreason
    · rw [heq] at hreason
      cases hreason
      have hlt := resyncOrFail_pending_lt hne heq
      exact hlt
  rcases hdeclared : mlpDeclaredAccessUnitBytes (self.noteCarryBytes.pending.take 2) with - | len
  · rw [hdeclared] at h
    exact hresync _ h
  rw [hdeclared] at h
  dsimp only at h
  by_cases hcarry : self.noteCarryBytes.pending.length < len
  · rw [if_pos hcarry] at h
    cases h
  rw [if_neg hcarry] at h
  split_ifs at h with hboundary
  · exact hresync _ h
  · cases h
    have hlen := declared_pos hdeclared
    change (self.pending.drop len).length < _
    rw [List.length_drop]
    omega

/-- `drain_complete_access_units` (dvda_demux.rs:359). -/
def drainCompleteAccessUnits (self : MlpAccessUnitReassembler) : Except DvdaDemuxError MlpAccessUnitReassembler :=
  match _h : self.drainBody with
  | .error e => .error e
  | .ok (.done self') => .ok self'
  | .ok (.again self') => drainCompleteAccessUnits self'
termination_by self.pending.length
decreasing_by exact drainBody_pending_lt _h

def pushPayloadAfterAccounting (self : MlpAccessUnitReassembler) (payload : List UInt8) :
    Except DvdaDemuxError MlpAccessUnitReassembler :=
  { self with pending := self.pending ++ payload }.noteCarryBytes.drainCompleteAccessUnits

/-- `push_payload` (dvda_demux.rs:247). -/
def pushPayload (self : MlpAccessUnitReassembler) (payload : List UInt8) : Except DvdaDemuxError MlpAccessUnitReassembler :=
  { self with
    stats := { self.stats with inputPayloadBytes := self.stats.inputPayloadBytes + payload.length }
    absoluteInputBytes := self.absoluteInputBytes + payload.length
    streamStarted := self.streamStarted || !payload.isEmpty }.pushPayloadAfterAccounting payload

/-- `trim_initial_packet_fragment` (dvda_demux.rs:299): the bytes of the first packet before its first access unit. -/
def trimInitialPacketFragment (self : MlpAccessUnitReassembler) (subHeader : DvdaSubHeader) (payload : List UInt8)
    (packetInputOffset : ℕ) : Except DvdaDemuxError (MlpAccessUnitReassembler × List UInt8) :=
  if self.streamStarted || payload.isEmpty then .ok (self, payload)
  else
    match subHeader.mlpFirstAccessUnitPayloadOffset with
    | some firstAccessUnitOffset =>
      if firstAccessUnitOffset > payload.length then
        let pointer := (subHeader.firstAccessUnitPointer.getD 0).toNat
        let length := payload.length
        .error (.packetHandler s!"MLP first access-unit pointer {pointer} maps to payload offset {firstAccessUnitOffset}, beyond {length} payload byte(s)")
      else
        let skipped := payload.take firstAccessUnitOffset
        let self :=
          if allZero skipped then self.addPadding skipped.length
          else { self with stats := { self.stats with leadingFragmentBytes := self.stats.leadingFragmentBytes + skipped.length } }
        .ok ({ self with streamStarted := true }, payload.drop firstAccessUnitOffset)
    | none =>
      if allZero payload then .ok (self.addPadding payload.length, [])
      else if (verifiedMlpStartAt payload 0).isSome then .ok ({ self with streamStarted := true }, payload)
      else
        .error (.packetHandler s!"first MLP packet at payload byte {packetInputOffset} has no usable first access-unit pointer and does not start at a verified access unit")

/-- `push_packet` (dvda_demux.rs:226). -/
def pushPacket (self : MlpAccessUnitReassembler) (subHeader : DvdaSubHeader) (payload : List UInt8) :
    Except DvdaDemuxError MlpAccessUnitReassembler := do
  let packetInputOffset := self.absoluteInputBytes
  let (self, payload) ← trimInitialPacketFragment { self with
    stats := { self.stats with
      packetsSeen := self.stats.packetsSeen + 1, inputPayloadBytes := self.stats.inputPayloadBytes + payload.length }
    absoluteInputBytes := self.absoluteInputBytes + payload.length } subHeader payload packetInputOffset
  self.pushPayloadAfterAccounting payload

/-- `finish` (dvda_demux.rs:261). -/
def finish (self : MlpAccessUnitReassembler) : Except DvdaDemuxError MlpAccessUnitReassembler := do
  let self ← self.drainCompleteAccessUnits
  if self.pending.isEmpty then return self
  if allZero self.pending then return { self.addPadding self.pending.length with pending := [] }
  return { self with
    stats := { self.stats with trailingFragmentBytes := self.pending.length }
    pending := [] }

end MlpAccessUnitReassembler

end Dvda
