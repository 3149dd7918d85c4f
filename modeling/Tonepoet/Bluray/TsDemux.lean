import Mathlib.Data.List.Basic

/-!
# The Blu-ray transport stream demuxer (bluray_ts_demux.rs:153-490)

One PID of a transport stream carries the audio. Its packets have a four-bit continuity counter; their
payloads are put together to PES packets, each of which begins in a packet with the payload-unit-start flag
and either says its length or ends where the next one begins. An error ends the extraction, so the state
after one is not kept.
-/

namespace Bluray

def tsPacketSize : ℕ := 188

/-- The two kinds of `ConvertError` these functions return. -/
inductive ConvertError where
  | trackValidation (message : String)
  | realize (message : String)
  deriving DecidableEq, Repr

/-- `{:04x}` of a number, and `{:02x}`. -/
def formatHex (width n : ℕ) : String :=
  let digits := Nat.toDigits 16 n
  String.ofList (List.replicate (width - digits.length) '0' ++ digits)

structure ParsedTsPacket where
  pid : UInt16
  payloadUnitStart : Bool
  discontinuityIndicator : Bool
  continuityCounter : UInt8
  payload : Option (List UInt8)
  deriving DecidableEq, Repr

/-- `parse_ts_packet` (bluray_ts_demux.rs:424). -/
def parseTsPacket (packet : List UInt8) : Except ConvertError ParsedTsPacket :=
  if packet.length ≠ tsPacketSize then
    let length := packet.length
    .error (.realize s!"internal TS parser called with {length} byte packet")
  else if packet.getD 0 0 ≠ 0x47 then .error (.trackValidation "Blu-ray TS packet sync byte mismatch")
  else if packet.getD 1 0 &&& 0x80 ≠ 0 then
    .error (.trackValidation "Blu-ray TS packet has transport_error_indicator set")
  else
    let pid := ((packet.getD 1 0 &&& 0x1f).toUInt16 <<< 8) ||| (packet.getD 2 0).toUInt16
    let pidText := formatHex 4 pid.toNat
    let payloadUnitStart := packet.getD 1 0 &&& 0x40 != 0
    let transportScramblingControl := (packet.getD 3 0 >>> 6) &&& 0x03
    if transportScramblingControl ≠ 0 then
      .error (.trackValidation s!"Blu-ray TS packet PID 0x{pidText} is scrambled/encrypted (transport_scrambling_control={transportScramblingControl}); provide a decrypted/unprotected source")
    else
      let adaptationFieldControl := (packet.getD 3 0 >>> 4) &&& 0x03
      let continuityCounter := packet.getD 3 0 &&& 0x0f
      if adaptationFieldControl = 0 then
        .error (.trackValidation s!"Blu-ray TS packet PID 0x{pidText} uses reserved adaptation_field_control=0")
      else
        let hasAdaptation := adaptationFieldControl == 2 || adaptationFieldControl == 3
        let hasPayload := adaptationFieldControl == 1 || adaptationFieldControl == 3
        let adaptationLen := (packet.getD 4 0).toNat
        let payloadOffset := if hasAdaptation then 5 + adaptationLen else 4
        if payloadOffset > tsPacketSize then
          .error (.trackValidation s!"Blu-ray TS packet PID 0x{pidText} has adaptation field length {adaptationLen} past packet end")
        else
          .ok {
            pid
            payloadUnitStart
            discontinuityIndicator := hasAdaptation && adaptationLen > 0 && packet.getD 5 0 &&& 0x80 != 0
            continuityCounter
            payload := if hasPayload && payloadOffset < tsPacketSize then some (packet.drop payloadOffset) else none }

structure SelectedPesPacket where
  payload : List UInt8
  continuityStart : UInt8
  continuityEnd : UInt8
  deriving DecidableEq, Repr

inductive ContinuityDecision where
  | accept
  | duplicateRetransmission
  deriving DecidableEq, Repr

inductive PesLengthState where
  | needHeader
  | unknownLength
  | known (total : ℕ)
  deriving DecidableEq, Repr

structure SelectedPidPesDemuxer where
  pid : UInt16
  currentPes : List UInt8
  started : Bool
  currentStartContinuityCounter : Option UInt8
  currentEndContinuityCounter : Option UInt8
  currentPesLength : PesLengthState
  lastContinuityCounter : Option UInt8
  lastPayload : Option (List UInt8)
  completed : List SelectedPesPacket
  deriving DecidableEq, Repr

namespace SelectedPidPesDemuxer

def new (pid : UInt16) : SelectedPidPesDemuxer :=
  ⟨pid, [], false, none, none, .needHeader, none, none, []⟩

def pidText (self : SelectedPidPesDemuxer) : String := formatHex 4 self.pid.toNat

def discardCurrent (self : SelectedPidPesDemuxer) : SelectedPidPesDemuxer :=
  { self with
    currentPes := []
    started := false
    currentStartContinuityCounter := none
    currentEndContinuityCounter := none
    currentPesLength := .needHeader }

def resetContinuityExpectation (self : SelectedPidPesDemuxer) : SelectedPidPesDemuxer :=
  { self with lastContinuityCounter := none, lastPayload := none }

def startNewPes (self : SelectedPidPesDemuxer) (continuityCounter : UInt8) : SelectedPidPesDemuxer :=
  { self with
    currentPes := []
    started := true
    currentStartContinuityCounter := some continuityCounter
    currentEndContinuityCounter := some continuityCounter
    currentPesLength := .needHeader }

/-- `completed.pop_front()`. -/
def popFront (self : SelectedPidPesDemuxer) : SelectedPidPesDemuxer × Option SelectedPesPacket :=
  ({ self with completed := self.completed.tail }, self.completed.head?)

/-- The two length bytes of a PES packet. -/
def declaredLength (pes : List UInt8) : ℕ := (pes.getD 4 0).toNat * 256 + (pes.getD 5 0).toNat

/-- `refresh_current_pes_length_state` (bluray_ts_demux.rs:313). -/
def refreshCurrentPesLengthState (self : SelectedPidPesDemuxer) : Except ConvertError SelectedPidPesDemuxer :=
  if self.currentPesLength ≠ .needHeader then .ok self
  else if self.currentPes.length < 6 then .ok self
  else if self.currentPes.take 3 ≠ [0x00, 0x00, 0x01] then
    let pid := self.pidText
    .error (.trackValidation s!"Blu-ray selected audio PID 0x{pid} payload-unit-start does not begin with a PES start-code prefix")
  else
    let declared := declaredLength self.currentPes
    if declared = 0 then .ok { self with currentPesLength := .unknownLength }
    else
      let total := declared + 6
      if total < 9 then
        let pid := self.pidText
        .error (.trackValidation s!"Blu-ray selected audio PES PID 0x{pid} declares impossible length {total} byte(s)")
      else .ok { self with currentPesLength := .known total }

/-- `current_pes_is_complete` (bluray_ts_demux.rs:350). -/
def currentPesIsComplete (self : SelectedPidPesDemuxer) : Except ConvertError Bool :=
  match self.currentPesLength with
  | .known expected =>
    if self.currentPes.length > expected then
      let pid := self.pidText
      let got := self.currentPes.length
      .error (.trackValidation s!"Blu-ray selected audio PES PID 0x{pid} exceeded declared length: expected exactly {expected} byte(s), got at least {got}")
    else .ok (self.currentPes.length == expected)
  | .needHeader | .unknownLength => .ok false

/-- `take_current_pes` (bluray_ts_demux.rs:369). -/
def takeCurrentPes (self : SelectedPidPesDemuxer) : Except ConvertError (SelectedPidPesDemuxer × SelectedPesPacket) :=
  match self.currentStartContinuityCounter with
  | none => .error (.realize "Blu-ray PES demuxer lost current continuity start")
  | some continuityStart =>
    .ok ({ self with
        currentPes := []
        started := false
        currentStartContinuityCounter := none
        currentEndContinuityCounter := none
        currentPesLength := .needHeader },
      ⟨self.currentPes, continuityStart, self.currentEndContinuityCounter.getD continuityStart⟩)

/-- `take_current_pes` and `completed.push_back`. -/
def completeCurrent (self : SelectedPidPesDemuxer) : Except ConvertError SelectedPidPesDemuxer := do
  let (self, complete) ← self.takeCurrentPes
  return { self with completed := self.completed ++ [complete] }

/-- `validate_selected_payload_continuity` (bluray_ts_demux.rs:384). -/
def validateSelectedPayloadContinuity (self : SelectedPidPesDemuxer) (continuityCounter : UInt8) (payload : List UInt8) :
    Except ConvertError ContinuityDecision :=
  match self.lastContinuityCounter with
  | none => .ok .accept
  | some last =>
    let expected := (last + 1) &&& 0x0f
    let pid := self.pidText
    if continuityCounter = last then
      if self.lastPayload = some payload then .ok .duplicateRetransmission
      else .error (.trackValidation s!"Blu-ray TS duplicate continuity counter on PID 0x{pid} carried different payload bytes: {continuityCounter}")
    else if continuityCounter ≠ expected then
      .error (.trackValidation s!"Blu-ray TS continuity counter gap on PID 0x{pid}: expected {expected}, got {continuityCounter}")
    else .ok .accept

def markSelectedPayloadAccepted (self : SelectedPidPesDemuxer) (continuityCounter : UInt8) (payload : List UInt8) :
    SelectedPidPesDemuxer :=
  { self with lastContinuityCounter := some continuityCounter, lastPayload := some payload }

/-- `finalize_current_for_new_pusi` (bluray_ts_demux.rs:290). -/
def finalizeCurrentForNewPusi (self : SelectedPidPesDemuxer) : Except ConvertError SelectedPidPesDemuxer :=
  if !self.started || self.currentPes.isEmpty then .ok self.discardCurrent
  else do
    let self ← self.refreshCurrentPesLengthState
    match self.currentPesLength with
    | .known expected =>
      if self.currentPes.length ≠ expected then
        let pid := self.pidText
        let got := self.currentPes.length
        .error (.trackValidation s!"Blu-ray selected audio PES PID 0x{pid} was interrupted by a new payload start before its declared length: expected {expected} byte(s), got {got}")
      else self.completeCurrent
    | .needHeader | .unknownLength => self.completeCurrent

/-- The end of `push_ts_packet` (bluray_ts_demux.rs:238): the payload belongs to the current PES packet. -/
def extendCurrent (self : SelectedPidPesDemuxer) (continuityCounter : UInt8) (payload : List UInt8) :
    Except ConvertError (SelectedPidPesDemuxer × Option SelectedPesPacket) := do
  let self := { self with
    currentEndContinuityCounter := some continuityCounter
    currentPes := self.currentPes ++ payload }
  let self ← (self.markSelectedPayloadAccepted continuityCounter payload).refreshCurrentPesLengthState
  let complete ← self.currentPesIsComplete
  (if complete then self.completeCurrent else .ok self).map popFront

/-- `push_ts_packet` (bluray_ts_demux.rs:201) after the discontinuity check. -/
def pushSelected (self : SelectedPidPesDemuxer) (parsed : ParsedTsPacket) :
    Except ConvertError (SelectedPidPesDemuxer × Option SelectedPesPacket) :=
  match parsed.payload with
  | none => .ok self.popFront
  | some payload =>
    if payload.isEmpty then .ok self.popFront
    else do
      match ← self.validateSelectedPayloadContinuity parsed.continuityCounter payload with
      | .duplicateRetransmission => .ok self.popFront
      | .accept =>
        if parsed.payloadUnitStart then do
          let self ← self.finalizeCurrentForNewPusi
          (self.startNewPes parsed.continuityCounter).extendCurrent parsed.continuityCounter payload
        else if !self.started then
          .ok (self.markSelectedPayloadAccepted parsed.continuityCounter payload).popFront
        else self.extendCurrent parsed.continuityCounter payload

/-- `push_ts_packet` (bluray_ts_demux.rs:201). -/
def pushTsPacket (self : SelectedPidPesDemuxer) (packet : List UInt8) :
    Except ConvertError (SelectedPidPesDemuxer × Option SelectedPesPacket) := do
  let parsed ← parseTsPacket packet
  if parsed.pid ≠ self.pid then .ok self.popFront
  else (if parsed.discontinuityIndicator then self.resetContinuityExpectation.discardCurrent else self).pushSelected parsed

/-- `finish` (bluray_ts_demux.rs:250): at most one packet. -/
def finish (self : SelectedPidPesDemuxer) : Except ConvertError (Option SelectedPesPacket) :=
  match self.completed.head? with
  | some complete => .ok (some complete)
  | none =>
    if self.started && !self.currentPes.isEmpty then
      match self.currentPesLength with
      | .known expected =>
        if self.currentPes.length ≠ expected then
          let pid := self.pidText
          let got := self.currentPes.length
          .error (.trackValidation s!"Blu-ray selected audio PES PID 0x{pid} ended before declared length: expected {expected} byte(s), got {got}")
        else self.takeCurrentPes.map fun taken => some taken.2
      | .needHeader | .unknownLength => self.takeCurrentPes.map fun taken => some taken.2
    else .ok none

/-- Push a list of packets, collecting what comes out. -/
def pushAll (self : SelectedPidPesDemuxer) : List (List UInt8) → Except ConvertError (SelectedPidPesDemuxer × List SelectedPesPacket)
  | [] => .ok (self, [])
  | packet :: packets => do
    let (self, out) ← self.pushTsPacket packet
    let (self, outs) ← self.pushAll packets
    return (self, out.toList ++ outs)

end SelectedPidPesDemuxer

end Bluray
