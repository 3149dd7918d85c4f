import Mathlib.Data.List.GetD
import Mathlib.Order.Basic
import Tonepoet.Bluray.TsDemux
import Tonepoet.Rust

/-!
# PES reassembly of one PID

A push can complete two PES packets, the one before a payload-unit start and the one that begins there, and
hands out one. The other waits in the queue, but then nothing is in progress, so the next push takes it out
before it can complete another: the queue never holds two.
-/

namespace Bluray

open Rust SelectedPidPesDemuxer

variable {d d' : SelectedPidPesDemuxer} {out : Option SelectedPesPacket} {packet : List UInt8}

/-! ## The queue -/

/-- At most one packet waits, and only while none is in progress. -/
structure Queued (d : SelectedPidPesDemuxer) : Prop where
  length : d.completed.length ≤ 1
  idle : d.started = true → d.completed = []

theorem queued_new (pid : UInt16) : Queued (new pid) := ⟨Nat.zero_le 1, fun _ => rfl⟩

theorem queued_popFront (hlen : d.completed.length ≤ 2) (hidle : d.started = true → d.completed.length ≤ 1) : Queued d.popFront.1 := by
  have htail : d.popFront.1.completed.length = d.completed.length - 1 := List.length_tail
  refine ⟨by omega, fun hstarted => List.eq_nil_of_length_eq_zero ?_⟩
  have hle := hidle hstarted
  omega

theorem refresh_eq (h : d.refreshCurrentPesLengthState = .ok d') : d' = { d with currentPesLength := d'.currentPesLength } := by
  rw [refreshCurrentPesLengthState] at h
  dsimp only at h
  split_ifs at h
  all_goals (cases h; rfl)

theorem completeCurrent_eq (h : d.completeCurrent = .ok d') :
    ∃ taken : SelectedPesPacket, taken.payload = d.currentPes ∧ d' = { d.discardCurrent with completed := d.completed ++ [taken] } := by
  obtain ⟨⟨d₁, taken⟩, htake, h⟩ := bind_eq_ok.1 h
  rw [takeCurrentPes] at htake
  split at htake
  · cases htake
  · cases htake
    cases h
    exact ⟨_, rfl, rfl⟩

/-- A push that ends in `extendCurrent`. -/
theorem queued_extendCurrent {continuityCounter : UInt8} {payload : List UInt8} (hlen : d.completed.length ≤ 1)
    (h : d.extendCurrent continuityCounter payload = .ok (d', out)) : Queued d' := by
  rw [extendCurrent] at h
  obtain ⟨d₁, hrefresh, h⟩ := bind_eq_ok.1 h
  obtain ⟨complete, -, h⟩ := bind_eq_ok.1 h
  obtain ⟨d₂, hd₂, h⟩ := map_eq_ok.1 h
  cases h
  have hcompleted : d₁.completed = d.completed := by rw [refresh_eq hrefresh]; rfl
  cases complete with
  | false =>
    cases hd₂
    exact queued_popFront (by rw [hcompleted]; omega) fun _ => hcompleted ▸ hlen
  | true =>
    obtain ⟨taken, -, rfl⟩ := completeCurrent_eq hd₂
    refine queued_popFront ?_ nofun
    change (d₁.completed ++ [taken]).length ≤ 2
    rw [hcompleted, List.length_append, List.length_singleton]
    omega

theorem completed_finalize (hq : Queued d) (h : d.finalizeCurrentForNewPusi = .ok d') : d'.completed.length ≤ 1 := by
  rw [finalizeCurrentForNewPusi] at h
  split_ifs at h with hidle
  · cases h
    exact hq.length
  rw [Bool.or_eq_true, not_or, Bool.not_eq_true', Bool.not_eq_false] at hidle
  obtain ⟨d₁, hrefresh, h⟩ := bind_eq_ok.1 h
  have hcompleted : d₁.completed = [] := by
    rw [refresh_eq hrefresh]
    exact hq.idle hidle.1
  have hcomplete : ∀ {r}, d₁.completeCurrent = .ok r → r.completed.length ≤ 1 := by
    intro r hr
    obtain ⟨taken, -, rfl⟩ := completeCurrent_eq hr
    change (d₁.completed ++ [taken]).length ≤ 1
    rw [hcompleted]
    exact Nat.le_refl 1
  split at h
  · split_ifs at h
    exact hcomplete h
  · exact hcomplete h
  · exact hcomplete h

theorem Queued.popFront (hq : Queued d) : Queued d.popFront.1 :=
  queued_popFront (Nat.le_succ_of_le hq.length) fun _ => hq.length

theorem queued_pushSelected {parsed : ParsedTsPacket} (hq : Queued d) (h : d.pushSelected parsed = .ok (d', out)) : Queued d' := by
  rw [pushSelected] at h
  rcases hpayload : parsed.payload with - | payload
  · rw [hpayload] at h
    cases h
    exact hq.popFront
  rw [hpayload] at h
  dsimp only at h
  by_cases hempty : payload.isEmpty = true
  · rw [if_pos hempty] at h
    cases h
    exact hq.popFront
  rw [if_neg hempty] at h
  obtain ⟨decision, -, h⟩ := bind_eq_ok.1 h
  cases decision with
  | duplicateRetransmission =>
    cases h
    exact hq.popFront
  | accept =>
    dsimp only at h
    by_cases hpusi : parsed.payloadUnitStart = true
    · rw [if_pos hpusi] at h
      obtain ⟨d₁, hfinalize, h⟩ := bind_eq_ok.1 h
      have hd₁ := completed_finalize hq hfinalize
      exact @queued_extendCurrent (d₁.startNewPes _) _ _ _ _ hd₁ h
    rw [if_neg hpusi] at h
    by_cases hidle : (!d.started) = true
    · rw [if_pos hidle] at h
      cases h
      exact @Queued.popFront (d.markSelectedPayloadAccepted _ _) ⟨hq.length, hq.idle⟩
    · rw [if_neg hidle] at h
      exact queued_extendCurrent hq.length h

/-- Every push keeps the queue bounded, whatever the packet. -/
theorem queued_pushTsPacket (hq : Queued d) (h : d.pushTsPacket packet = .ok (d', out)) : Queued d' := by
  rw [pushTsPacket] at h
  obtain ⟨parsed, -, h⟩ := bind_eq_ok.1 h
  have hreset : Queued d.resetContinuityExpectation.discardCurrent := ⟨hq.length, fun h => by cases h⟩
  split_ifs at h
  · cases h
    exact hq.popFront
  · exact queued_pushSelected hreset h
  · exact queued_pushSelected hq h

/-! ## Length states -/

/-- A PES packet: the start code, at least the fixed header, and a length that is left out or right. -/
structure IsPes (pes : List UInt8) : Prop where
  start : pes.take 3 = [0x00, 0x00, 0x01]
  header : 9 ≤ pes.length
  declared : declaredLength pes = 0 ∨ declaredLength pes + 6 = pes.length

/-- What the bytes so far say about the length of the whole. -/
def lengthState (bytes : List UInt8) : PesLengthState :=
  if bytes.length < 6 then .needHeader
  else if declaredLength bytes = 0 then .unknownLength
  else .known (declaredLength bytes + 6)

theorem declaredLength_append {bytes : List UInt8} (h : 6 ≤ bytes.length) (rest : List UInt8) :
    declaredLength (bytes ++ rest) = declaredLength bytes := by
  rw [declaredLength, declaredLength, List.getD_append _ _ _ _ (by omega), List.getD_append _ _ _ _ (by omega)]

theorem lengthState_append {bytes : List UInt8} (h : lengthState bytes ≠ .needHeader) (rest : List UInt8) :
    lengthState (bytes ++ rest) = lengthState bytes := by
  have hlen : ¬ bytes.length < 6 := fun hlen => h (if_pos hlen)
  have hlen' : ¬ (bytes ++ rest).length < 6 := by
    rw [List.length_append]
    omega
  rw [lengthState, lengthState, if_neg hlen, if_neg hlen', declaredLength_append (by omega)]

/-- The length state follows the bytes. -/
theorem refresh_spec {sofar piece tail : List UInt8} (hlength : d.currentPesLength = lengthState sofar)
    (hcurrent : d.currentPes = sofar ++ piece) (hpes : IsPes (sofar ++ piece ++ tail)) :
    d.refreshCurrentPesLengthState = .ok { d with currentPesLength := lengthState (sofar ++ piece) } := by
  rw [refreshCurrentPesLengthState]
  by_cases hneed : d.currentPesLength = .needHeader
  · rw [if_neg (not_not.2 hneed), hcurrent, lengthState]
    by_cases hshort : (sofar ++ piece).length < 6
    · rw [if_pos hshort, if_pos hshort, ← hneed, ← hcurrent]
    have hsix : 6 ≤ (sofar ++ piece).length := Nat.le_of_not_lt hshort
    have hthree : 3 ≤ (sofar ++ piece).length := by omega
    have hstart : (sofar ++ piece).take 3 = [0x00, 0x00, 0x01] := (List.take_append_of_le_length hthree).symm.trans hpes.start
    have hdeclared := hpes.declared
    have hheader := hpes.header
    rw [declaredLength_append hsix] at hdeclared
    rw [if_neg hshort, if_neg hshort, hstart, if_neg (not_not.2 rfl)]
    dsimp only
    by_cases hzero : declaredLength (sofar ++ piece) = 0
    · rw [if_pos hzero, if_pos hzero]
    · rw [if_neg hzero, if_neg hzero, if_neg (by omega)]
  · rw [if_pos hneed, lengthState_append (hlength ▸ hneed), ← hlength]

/-! ## One PES packet -/

/-- A PES packet is in progress: what is there of it, and the payloads still to come. -/
structure InProgress (d : SelectedPidPesDemuxer) (sofar : List UInt8) (rest : List (List UInt8)) : Prop where
  started : d.started = true
  current : d.currentPes = sofar
  nonempty : sofar ≠ []
  counter : d.currentStartContinuityCounter.isSome = true
  length : d.currentPesLength = lengthState sofar
  pes : IsPes (sofar ++ rest.flatten)
  payloads : ∀ payload ∈ rest, payload ≠ []
  /-- A packet that says its length is done when it is there. -/
  unknown : rest = [] → declaredLength sofar = 0

theorem takeCurrentPes_spec (h : d.currentStartContinuityCounter.isSome = true) :
    ∃ taken : SelectedPesPacket, taken.payload = d.currentPes ∧ d.takeCurrentPes = .ok (d.discardCurrent, taken) := by
  obtain ⟨counter, hcounter⟩ := Option.isSome_iff_exists.1 h
  refine ⟨⟨d.currentPes, counter, d.currentEndContinuityCounter.getD counter⟩, rfl, ?_⟩
  rw [takeCurrentPes, hcounter]
  rfl

theorem completeCurrent_spec (h : d.currentStartContinuityCounter.isSome = true) :
    ∃ taken : SelectedPesPacket, taken.payload = d.currentPes ∧
      d.completeCurrent = .ok { d.discardCurrent with completed := d.completed ++ [taken] } := by
  obtain ⟨taken, htaken, htake⟩ := takeCurrentPes_spec h
  refine ⟨taken, htaken, ?_⟩
  rw [completeCurrent, htake]
  rfl

/-- Whether the bytes are the whole packet, for a packet that says its length. -/
theorem currentPesIsComplete_spec {sofar : List UInt8} {rest : List (List UInt8)} (hlength : d.currentPesLength = lengthState sofar)
    (hcurrent : d.currentPes = sofar) (hpes : IsPes (sofar ++ rest.flatten)) (hpayloads : ∀ payload ∈ rest, payload ≠ []) :
    ∃ complete, d.currentPesIsComplete = .ok complete ∧
      (complete = true ∧ rest = [] ∨ complete = false ∧ (rest = [] → declaredLength sofar = 0)) := by
  have hheader := hpes.header
  rw [List.length_append] at hheader
  have hflatten : rest ≠ [] → 0 < rest.flatten.length := by
    intro hrest
    obtain ⟨payload, more, rfl⟩ := List.exists_cons_of_ne_nil hrest
    have hpos := List.length_pos_iff.2 (hpayloads payload List.mem_cons_self)
    rw [List.flatten_cons, List.length_append]
    omega
  rw [currentPesIsComplete, hlength, lengthState]
  by_cases hshort : sofar.length < 6
  · rw [if_pos hshort]
    refine ⟨false, rfl, .inr ⟨rfl, fun hrest => ?_⟩⟩
    rw [hrest, List.flatten_nil, List.length_nil] at hheader
    omega
  have hdeclared := hpes.declared
  rw [declaredLength_append (Nat.le_of_not_lt hshort), List.length_append] at hdeclared
  rw [if_neg hshort]
  by_cases hzero : declaredLength sofar = 0
  · rw [if_pos hzero]
    exact ⟨false, rfl, .inr ⟨rfl, fun _ => hzero⟩⟩
  rw [if_neg hzero]
  dsimp only
  rw [hcurrent, if_neg (by omega)]
  refine ⟨_, rfl, ?_⟩
  by_cases hrest : rest = []
  · refine .inl ⟨?_, hrest⟩
    rw [hrest, List.flatten_nil, List.length_nil] at hdeclared
    rw [beq_iff_eq]
    omega
  · refine .inr ⟨?_, fun h => absurd h hrest⟩
    have hpos := hflatten hrest
    rw [beq_eq_false_iff_ne]
    omega

/-- One more payload of the packet in progress. -/
theorem extendCurrent_spec {sofar payload : List UInt8} {rest : List (List UInt8)} {continuityCounter : UInt8} (hstarted : d.started = true)
    (hcurrent : d.currentPes = sofar) (hcounter : d.currentStartContinuityCounter.isSome = true)
    (hlength : d.currentPesLength = lengthState sofar) (hpes : IsPes (sofar ++ payload ++ rest.flatten)) (hne : payload ≠ [])
    (hpayloads : ∀ payload ∈ rest, payload ≠ []) :
    ∃ d₁ : SelectedPidPesDemuxer, d.extendCurrent continuityCounter payload = .ok d₁.popFront ∧ d₁.pid = d.pid ∧
      d₁.lastContinuityCounter = some continuityCounter ∧ d₁.lastPayload = some payload ∧
      ((rest = [] ∧ d₁.started = false ∧ d₁.completed.map SelectedPesPacket.payload =
          d.completed.map SelectedPesPacket.payload ++ [sofar ++ payload]) ∨
        InProgress d₁ (sofar ++ payload) rest ∧ d₁.completed = d.completed) := by
  let d₀ : SelectedPidPesDemuxer := { d with
    currentEndContinuityCounter := some continuityCounter
    currentPes := d.currentPes ++ payload
    lastContinuityCounter := some continuityCounter
    lastPayload := some payload }
  have hrefresh : d₀.refreshCurrentPesLengthState = .ok { d₀ with currentPesLength := lengthState (sofar ++ payload) } :=
    refresh_spec hlength (by rw [← hcurrent]) hpes
  obtain ⟨complete, hcomplete, hcases⟩ := @currentPesIsComplete_spec { d₀ with currentPesLength := lengthState (sofar ++ payload) }
    (sofar ++ payload) rest rfl (by rw [← hcurrent]) hpes hpayloads
  have hextend : d.extendCurrent continuityCounter payload =
      (if complete then ({ d₀ with currentPesLength := lengthState (sofar ++ payload) } : SelectedPidPesDemuxer).completeCurrent
        else .ok { d₀ with currentPesLength := lengthState (sofar ++ payload) }).map popFront := by
    change (d₀.refreshCurrentPesLengthState >>= _) = _
    rw [hrefresh]
    change (currentPesIsComplete _ >>= _) = _
    rw [hcomplete]
    rfl
  rw [hextend]
  rcases hcases with ⟨rfl, hrest⟩ | ⟨rfl, hunknown⟩
  · obtain ⟨taken, htaken, htake⟩ :=
      @completeCurrent_spec { d₀ with currentPesLength := lengthState (sofar ++ payload) } hcounter
    rw [if_pos rfl, htake]
    refine ⟨_, rfl, rfl, rfl, rfl, .inl ⟨hrest, rfl, ?_⟩⟩
    change (d.completed ++ [taken]).map SelectedPesPacket.payload = _
    rw [List.map_append, List.map_singleton, htaken]
    change _ ++ [d.currentPes ++ payload] = _
    rw [hcurrent]
  · refine ⟨_, rfl, rfl, rfl, rfl, .inr ⟨⟨hstarted, ?_, ?_, hcounter, rfl, hpes, hpayloads, hunknown⟩, rfl⟩⟩
    · change d.currentPes ++ payload = _
      rw [hcurrent]
    · exact fun h => hne (List.append_eq_nil_iff.1 h).2

/-- A unit start ends the packet in progress, which has not said its length. -/
theorem finalize_spec {sofar : List UInt8} (h : InProgress d sofar []) :
    ∃ taken : SelectedPesPacket, taken.payload = sofar ∧
      d.finalizeCurrentForNewPusi = .ok { d.discardCurrent with completed := d.completed ++ [taken] } := by
  have hpes := h.pes
  rw [List.flatten_nil] at hpes
  have hstate : lengthState sofar = .unknownLength := by
    have hheader := hpes.header
    rw [List.append_nil] at hheader
    rw [lengthState, if_neg (by omega), if_pos (h.unknown rfl)]
  have hrefresh := @refresh_spec d sofar [] [] h.length (by rw [h.current, List.append_nil]) (by simpa using hpes)
  obtain ⟨taken, htaken, htake⟩ := @completeCurrent_spec { d with currentPesLength := lengthState (sofar ++ []) } h.counter
  refine ⟨taken, htaken.trans h.current, ?_⟩
  have hidle : ¬ (!d.started || d.currentPes.isEmpty) = true := by
    rw [h.started, h.current]
    simpa using h.nonempty
  rw [finalizeCurrentForNewPusi, if_neg hidle, hrefresh]
  dsimp only [bind, Except.bind]
  rw [List.append_nil, hstate] at *
  exact htake

/-! ## A packetized stream -/

/-- A packet of the PID with a payload that signals no discontinuity. -/
def Carries (pid : UInt16) (continuityCounter : UInt8) (payloadUnitStart : Bool) (payload packet : List UInt8) : Prop :=
  parseTsPacket packet = .ok ⟨pid, payloadUnitStart, false, continuityCounter, some payload⟩

/-- A packet of another PID, or one of the PID without a payload. -/
def Beside (pid : UInt16) (packet : List UInt8) : Prop :=
  ∃ parsed, parseTsPacket packet = .ok parsed ∧ (parsed.pid ≠ pid ∨ parsed.payload = none)

/-- A packet of another PID, or one of the PID without a payload and without a discontinuity. -/
def Ignored (pid : UInt16) (packet : List UInt8) : Prop :=
  ∃ parsed, parseTsPacket packet = .ok parsed ∧ (parsed.pid ≠ pid ∨ parsed.payload = none ∧ parsed.discontinuityIndicator = false)

/-- The payloads of a PES packet, the first with the unit start. -/
def unitPayloads : List (List UInt8) → List (Bool × List UInt8)
  | [] => []
  | first :: rest => (true, first) :: rest.map (Prod.mk false)

/-- The packets that bring the payloads in order, after the packet with the counter, the flag and the payload
    of `last`: consecutive counters, with retransmissions and packets `between` them anywhere. -/
inductive Feeds (pid : UInt16) (between : List UInt8 → Prop) :
    Option (UInt8 × Bool × List UInt8) → List (Bool × List UInt8) → List (List UInt8) → Prop where
  | done {last : Option (UInt8 × Bool × List UInt8)} : Feeds pid between last [] []
  | ignored {last : Option (UInt8 × Bool × List UInt8)} {units : List (Bool × List UInt8)} {packet : List UInt8}
      {packets : List (List UInt8)} : between packet → Feeds pid between last units packets →
      Feeds pid between last units (packet :: packets)
  | again {counter : UInt8} {start : Bool} {payload : List UInt8} {units : List (Bool × List UInt8)} {packet : List UInt8}
      {packets : List (List UInt8)} : Carries pid counter start payload packet →
      Feeds pid between (some (counter, start, payload)) units packets →
      Feeds pid between (some (counter, start, payload)) units (packet :: packets)
  | next {last : Option (UInt8 × Bool × List UInt8)} {counter : UInt8} {start : Bool} {payload : List UInt8}
      {units : List (Bool × List UInt8)} {packet : List UInt8} {packets : List (List UInt8)} :
      Carries pid counter start payload packet → (∀ l, last = some l → counter = (l.1 + 1) &&& 0x0f) →
      Feeds pid between (some (counter, start, payload)) units packets →
      Feeds pid between last ((start, payload) :: units) (packet :: packets)

/-- How far a demuxer is: what it last accepted, and the packet in progress with its outstanding payloads. -/
structure Position (pid : UInt16) (d : SelectedPidPesDemuxer) (last : Option (UInt8 × Bool × List UInt8)) (current : Option (List UInt8))
    (rest : List (List UInt8)) : Prop where
  pid : d.pid = pid
  queued : Queued d
  counter : d.lastContinuityCounter = last.map Prod.fst
  payload : d.lastPayload = last.map fun l => l.2.2
  idle : current = none → d.started = false ∧ rest = []
  progress : ∀ sofar, current = some sofar → InProgress d sofar rest

variable {pid : UInt16} {last : Option (UInt8 × Bool × List UInt8)} {current : Option (List UInt8)} {rest : List (List UInt8)}

theorem InProgress.popFront {sofar : List UInt8} (h : InProgress d sofar rest) : InProgress d.popFront.1 sofar rest :=
  ⟨h.started, h.current, h.nonempty, h.counter, h.length, h.pes, h.payloads, h.unknown⟩

theorem Position.popFront (h : Position pid d last current rest) : Position pid d.popFront.1 last current rest :=
  ⟨h.pid, h.queued.popFront, h.counter, h.payload, h.idle, fun sofar hsofar => (h.progress sofar hsofar).popFront⟩

theorem popFront_completed (d : SelectedPidPesDemuxer) : d.popFront.2.toList ++ d.popFront.1.completed = d.completed := by
  rw [SelectedPidPesDemuxer.popFront]
  cases d.completed with
  | nil => rfl
  | cons taken more => rfl

theorem push_ignored (h : Ignored d.pid packet) : d.pushTsPacket packet = .ok d.popFront := by
  obtain ⟨parsed, hparse, hignored⟩ := h
  rw [pushTsPacket, hparse]
  change (if parsed.pid ≠ d.pid then _ else _) = _
  rcases hignored with hpid | ⟨hpayload, hdiscontinuity⟩
  · rw [if_pos hpid]
  · by_cases hpid : parsed.pid ≠ d.pid
    · rw [if_pos hpid]
    · rw [if_neg hpid, hdiscontinuity, if_neg Bool.false_ne_true, pushSelected, hpayload]

/-- A packet of the PID goes to `pushSelected`. -/
theorem push_carries {counter : UInt8} {start : Bool} {payload : List UInt8} (h : Carries d.pid counter start payload packet) :
    d.pushTsPacket packet = d.pushSelected ⟨d.pid, start, false, counter, some payload⟩ := by
  rw [pushTsPacket, h]
  exact if_neg (not_not.2 rfl)

theorem push_again {counter : UInt8} {start : Bool} {payload : List UInt8} (h : Carries d.pid counter start payload packet)
    (hcounter : d.lastContinuityCounter = some counter) (hpayload : d.lastPayload = some payload) :
    d.pushTsPacket packet = .ok d.popFront := by
  rw [push_carries h, pushSelected]
  by_cases hempty : payload.isEmpty = true
  · exact if_pos hempty
  · dsimp only
    rw [if_neg hempty, validateSelectedPayloadContinuity, hcounter]
    dsimp only
    rw [if_pos rfl, if_pos hpayload]
    rfl

theorem next_counter_ne (c : UInt8) : (c + 1) &&& 0x0f ≠ c := by
  intro h
  have hnat := congrArg UInt8.toNat h
  rw [UInt8.toNat_and, UInt8.toNat_add, show (0x0f : UInt8).toNat = 2 ^ 4 - 1 from rfl, Nat.and_two_pow_sub_one_eq_mod] at hnat
  have hc := c.toNat_lt
  have hone : (1 : UInt8).toNat = 1 := rfl
  omega

theorem validate_next {counter : UInt8} {payload : List UInt8} (hlast : d.lastContinuityCounter = last.map Prod.fst)
    (hnext : ∀ l, last = some l → counter = (l.1 + 1) &&& 0x0f) :
    d.validateSelectedPayloadContinuity counter payload = .ok .accept := by
  rw [validateSelectedPayloadContinuity, hlast]
  cases last with
  | none => rfl
  | some l =>
    have hcounter := hnext l rfl
    have hne : counter ≠ l.1 := hcounter ▸ next_counter_ne l.1
    change (if counter = l.1 then _ else if counter ≠ (l.1 + 1) &&& 0x0f then _ else _) = _
    rw [if_neg hne, if_neg (not_not.2 hcounter)]

/-- What the packet in progress will be. -/
def owed : Option (List UInt8) → List (List UInt8) → List (List UInt8)
  | none, _ => []
  | some sofar, rest => [sofar ++ rest.flatten]

/-- Where a payload of the packet in progress leads, from a state that holds what there is of it. -/
theorem push_payload {d₀ : SelectedPidPesDemuxer} {counter : UInt8} {start : Bool} {sofar payload : List UInt8}
    (hqueued : Queued d) (hpush : d.pushTsPacket packet = d₀.extendCurrent counter payload) (hpid : d₀.pid = pid)
    (hstarted : d₀.started = true) (hcurrent : d₀.currentPes = sofar) (hcounter : d₀.currentStartContinuityCounter.isSome = true)
    (hlength : d₀.currentPesLength = lengthState sofar) (hpes : IsPes (sofar ++ payload ++ rest.flatten)) (hne : payload ≠ [])
    (hpayloads : ∀ payload ∈ rest, payload ≠ []) :
    ∃ (d₁ : SelectedPidPesDemuxer) (current : Option (List UInt8)), d.pushTsPacket packet = .ok d₁.popFront ∧
      Position pid d₁.popFront.1 (some (counter, start, payload)) current rest ∧
      d₁.completed.map SelectedPesPacket.payload ++ owed current rest =
        d₀.completed.map SelectedPesPacket.payload ++ [sofar ++ payload ++ rest.flatten] := by
  obtain ⟨d₁, hextend, hpid₁, hlast, hlastPayload, hcases⟩ :=
    @extendCurrent_spec d₀ sofar payload rest counter hstarted hcurrent hcounter hlength hpes hne hpayloads
  rw [hextend] at hpush
  have hqueued₁ := queued_pushTsPacket hqueued hpush
  rcases hcases with ⟨rfl, hidle, hcompleted⟩ | ⟨hprogress, hcompleted⟩
  · refine ⟨d₁, none, hpush, ⟨hpid₁.trans hpid, hqueued₁, hlast, hlastPayload, fun _ => ⟨hidle, rfl⟩, nofun⟩, ?_⟩
    rw [hcompleted, owed, List.append_nil, List.flatten_nil, List.append_nil]
  · refine ⟨d₁, some (sofar ++ payload), hpush, ⟨hpid₁.trans hpid, hqueued₁, hlast, hlastPayload, nofun, ?_⟩, ?_⟩
    · rintro _ ⟨⟩
      exact hprogress.popFront
    · rw [hcompleted, owed]

theorem push_middle {counter : UInt8} {sofar payload : List UInt8} (h : Position pid d last (some sofar) (payload :: rest))
    (hcarries : Carries pid counter false payload packet) (hnext : ∀ l, last = some l → counter = (l.1 + 1) &&& 0x0f) :
    ∃ (d₁ : SelectedPidPesDemuxer) (current : Option (List UInt8)), d.pushTsPacket packet = .ok d₁.popFront ∧
      Position pid d₁.popFront.1 (some (counter, false, payload)) current rest ∧
      d₁.completed.map SelectedPesPacket.payload ++ owed current rest =
        d.completed.map SelectedPesPacket.payload ++ owed (some sofar) (payload :: rest) := by
  have hprogress := h.progress sofar rfl
  have hne := hprogress.payloads payload List.mem_cons_self
  have hpush : d.pushTsPacket packet = d.extendCurrent counter payload := by
    rw [push_carries (h.pid ▸ hcarries), pushSelected]
    dsimp only
    rw [if_neg (by simpa using hne), validate_next h.counter hnext]
    simp only [bind, Except.bind, hprogress.started, Bool.not_true, Bool.false_eq_true, if_false]
  have hpes := hprogress.pes
  rw [List.flatten_cons, ← List.append_assoc] at hpes
  rw [owed, List.flatten_cons, ← List.append_assoc]
  exact push_payload h.queued hpush h.pid hprogress.started hprogress.current hprogress.counter hprogress.length hpes hne
    fun p hp => hprogress.payloads p (List.mem_cons_of_mem _ hp)

theorem push_start {counter : UInt8} {payload : List UInt8} (h : Position pid d last current [])
    (hcarries : Carries pid counter true payload packet) (hnext : ∀ l, last = some l → counter = (l.1 + 1) &&& 0x0f)
    (hpes : IsPes (payload ++ rest.flatten)) (hne : payload ≠ []) (hpayloads : ∀ payload ∈ rest, payload ≠ []) :
    ∃ (d₁ : SelectedPidPesDemuxer) (current' : Option (List UInt8)), d.pushTsPacket packet = .ok d₁.popFront ∧
      Position pid d₁.popFront.1 (some (counter, true, payload)) current' rest ∧
      d₁.completed.map SelectedPesPacket.payload ++ owed current' rest =
        d.completed.map SelectedPesPacket.payload ++ owed current [] ++ [payload ++ rest.flatten] := by
  obtain ⟨d₀, hfinalize, hpid, hcompleted⟩ : ∃ d₀ : SelectedPidPesDemuxer, d.finalizeCurrentForNewPusi = .ok d₀ ∧ d₀.pid = d.pid ∧
      d₀.completed.map SelectedPesPacket.payload = d.completed.map SelectedPesPacket.payload ++ owed current [] := by
    cases hcurrent : current with
    | none =>
      refine ⟨d.discardCurrent, ?_, rfl, ?_⟩
      · rw [finalizeCurrentForNewPusi, (h.idle hcurrent).1]
        rfl
      · rw [owed, List.append_nil]
        rfl
    | some sofar =>
      obtain ⟨taken, htaken, hfinalize⟩ := finalize_spec (h.progress sofar hcurrent)
      refine ⟨_, hfinalize, rfl, ?_⟩
      change (d.completed ++ [taken]).map SelectedPesPacket.payload = _
      rw [List.map_append, List.map_singleton, htaken, owed, List.flatten_nil, List.append_nil]
  have hpush : d.pushTsPacket packet = (d₀.startNewPes counter).extendCurrent counter payload := by
    rw [push_carries (h.pid ▸ hcarries), pushSelected]
    dsimp only
    rw [if_neg (by simpa using hne), validate_next h.counter hnext]
    simp only [bind, Except.bind, if_true, hfinalize]
  rw [← hcompleted]
  exact push_payload h.queued hpush (hpid.trans h.pid) rfl rfl rfl rfl hpes hne hpayloads

/-- The end of the stream: the packet that waits or the one without a length. -/
theorem finish_spec (h : Position pid d last current []) :
    ∃ final, d.finish = .ok final ∧
      final.toList.map SelectedPesPacket.payload = d.completed.map SelectedPesPacket.payload ++ owed current [] := by
  rw [finish]
  rcases hcompleted : d.completed with - | ⟨taken, more⟩
  · dsimp only [List.head?_nil]
    cases hcurrent : current with
    | none =>
      rw [(h.idle hcurrent).1]
      exact ⟨none, rfl, rfl⟩
    | some sofar =>
      have hprogress := h.progress sofar hcurrent
      obtain ⟨taken, htaken, htake⟩ := takeCurrentPes_spec hprogress.counter
      have hpes := hprogress.pes.header
      rw [List.flatten_nil, List.append_nil] at hpes
      have hlength := hprogress.length
      rw [lengthState, if_neg (by omega), if_pos (hprogress.unknown rfl)] at hlength
      have hnonempty : (d.started && !d.currentPes.isEmpty) = true := by
        rw [hprogress.started, hprogress.current]
        simpa using hprogress.nonempty
      rw [if_pos hnonempty, hlength]
      dsimp only
      rw [htake]
      refine ⟨some taken, rfl, ?_⟩
      rw [Option.toList_some, List.map_singleton, htaken, hprogress.current, owed, List.flatten_nil, List.append_nil]
      rfl
  · have hmore : more = [] := by
      have hlength := h.queued.length
      rw [hcompleted, List.length_cons] at hlength
      exact List.eq_nil_of_length_eq_zero (by omega)
    have hidle : current = none := by
      by_contra hcurrent
      obtain ⟨sofar, hsofar⟩ := Option.ne_none_iff_exists'.1 hcurrent
      have hnil := h.queued.idle (h.progress sofar hsofar).started
      rw [hcompleted] at hnil
      cases hnil
    rw [hmore, hidle]
    exact ⟨some taken, rfl, rfl⟩

/-! ## Runs -/

/-- The PES packets as their payloads: no payload is empty. -/
def IsPesStream (pess : List (List (List UInt8))) : Prop :=
  ∀ pes ∈ pess, (∀ payload ∈ pes, payload ≠ []) ∧ IsPes pes.flatten

theorem pes_ne_nil {pes : List (List UInt8)} (h : IsPes pes.flatten) : pes ≠ [] := by
  rintro rfl
  exact absurd h.header (by decide)

theorem units_eq_nil {pess : List (List (List UInt8))} (hpess : IsPesStream pess)
    (h : [] = rest.map (Prod.mk false) ++ pess.flatMap unitPayloads) : rest = [] ∧ pess = [] := by
  obtain ⟨hrest, hunits⟩ := List.append_eq_nil_iff.1 h.symm
  refine ⟨List.map_eq_nil_iff.1 hrest, ?_⟩
  cases pess with
  | nil => rfl
  | cons pes more =>
    obtain ⟨first, payloads, rfl⟩ := List.exists_cons_of_ne_nil (pes_ne_nil (hpess pes List.mem_cons_self).2)
    cases hunits

/-- The run ends between PES packets, and `pes` is what came out, waits or is in progress, in order. -/
def Yields (pid : UInt16) (d : SelectedPidPesDemuxer) (packets pes : List (List UInt8)) : Prop :=
  ∃ d' outs last current, d.pushAll packets = .ok (d', outs) ∧ Position pid d' last current [] ∧
    outs.map SelectedPesPacket.payload ++ (d'.completed.map SelectedPesPacket.payload ++ owed current []) = pes

/-- A push takes out the head of the queue; the rest of the run goes on from what is left. -/
theorem Yields.cons {d₁ : SelectedPidPesDemuxer} {packets after : List (List UInt8)} (hpush : d.pushTsPacket packet = .ok d₁.popFront)
    (h : Yields pid d₁.popFront.1 packets (d₁.popFront.1.completed.map SelectedPesPacket.payload ++ after)) :
    Yields pid d (packet :: packets) (d₁.completed.map SelectedPesPacket.payload ++ after) := by
  obtain ⟨d', outs, last, current, hall, hposition, hout⟩ := h
  refine ⟨d', d₁.popFront.2.toList ++ outs, last, current, ?_, hposition, ?_⟩
  · rw [pushAll, hpush]
    change (d₁.popFront.1.pushAll packets >>= _) = _
    rw [hall]
    rfl
  · rw [List.map_append, List.append_assoc, hout, ← List.append_assoc, ← List.map_append, popFront_completed]

/-- The run: what comes out, waits and is in progress is the stream so far. -/
theorem pushAll_spec {units : List (Bool × List UInt8)} {packets : List (List UInt8)} (hfeeds : Feeds pid (Ignored pid) last units packets) :
    ∀ {d : SelectedPidPesDemuxer} {current : Option (List UInt8)} {rest : List (List UInt8)} {pess : List (List (List UInt8))},
      Position pid d last current rest → IsPesStream pess → units = rest.map (Prod.mk false) ++ pess.flatMap unitPayloads →
      Yields pid d packets (d.completed.map SelectedPesPacket.payload ++ (owed current rest ++ pess.map List.flatten)) := by
  induction hfeeds with
  | done =>
    intro d current rest pess hposition hpess hunits
    obtain ⟨rfl, rfl⟩ := units_eq_nil hpess hunits
    exact ⟨d, [], _, current, rfl, hposition, by simp⟩
  | ignored hignored _ ih =>
    intro d current rest pess hposition hpess hunits
    exact Yields.cons (push_ignored (hposition.pid ▸ hignored)) (ih hposition.popFront hpess hunits)
  | again hcarries _ ih =>
    intro d current rest pess hposition hpess hunits
    exact Yields.cons (push_again (hposition.pid ▸ hcarries) hposition.counter hposition.payload) (ih hposition.popFront hpess hunits)
  | @next last counter start payload units packet packets hcarries hnext _ ih =>
    intro d current rest pess hposition hpess hunits
    cases rest with
    | cons payload' rest =>
      -- the packet in progress goes on
      injection hunits with hhead htail
      cases hhead
      cases hcurrent : current with
      | none => cases (hposition.idle hcurrent).2
      | some sofar =>
        rw [hcurrent] at hposition
        obtain ⟨d₁, current₁, hpush, hposition₁, hcompleted⟩ := push_middle hposition hcarries hnext
        rw [← List.append_assoc, ← hcompleted, List.append_assoc]
        exact Yields.cons hpush (ih hposition₁ hpess htail)
    | nil =>
      -- the next one begins
      cases pess with
      | nil => cases hunits
      | cons pes pess =>
        obtain ⟨hpayloads, hpes⟩ := hpess pes List.mem_cons_self
        obtain ⟨first, payloads, rfl⟩ := List.exists_cons_of_ne_nil (pes_ne_nil hpes)
        injection hunits with hhead htail
        cases hhead
        rw [List.flatten_cons] at hpes
        obtain ⟨d₁, current₁, hpush, hposition₁, hcompleted⟩ := push_start hposition hcarries hnext hpes
          (hpayloads payload List.mem_cons_self) fun p hp => hpayloads p (List.mem_cons_of_mem _ hp)
        have hstream : d.completed.map SelectedPesPacket.payload ++
            (owed current [] ++ ((payload :: payloads) :: pess).map List.flatten) =
              d₁.completed.map SelectedPesPacket.payload ++ (owed current₁ payloads ++ pess.map List.flatten) := by
          rw [← List.append_assoc _ (owed current₁ payloads), hcompleted, List.map_cons, List.flatten_cons]
          simp only [List.append_assoc, List.singleton_append]
        rw [hstream]
        exact Yields.cons hpush (ih hposition₁ (fun pes hmem => hpess pes (List.mem_cons_of_mem _ hmem)) htail)

/-- Every run keeps the queue bounded, whatever the packets. -/
theorem queued_pushAll {packets : List (List UInt8)} :
    ∀ {d : SelectedPidPesDemuxer} {outs : List SelectedPesPacket}, Queued d → d.pushAll packets = .ok (d', outs) → Queued d' := by
  induction packets with
  | nil =>
    intro d outs hqueued h
    cases h
    exact hqueued
  | cons packet packets ih =>
    intro d outs hqueued h
    obtain ⟨⟨d₁, out⟩, hpush, h⟩ := bind_eq_ok.1 h
    obtain ⟨⟨d₂, outs₂⟩, hall, h⟩ := bind_eq_ok.1 h
    cases h
    exact ih (queued_pushTsPacket hqueued hpush) hall

/-- The stream comes out of the pushes and one `finish`, in order. -/
def Reassembles (pid : UInt16) (pess : List (List (List UInt8))) (packets : List (List UInt8)) : Prop :=
  ∃ d outs final, (new pid).pushAll packets = .ok (d, outs) ∧ d.finish = .ok final ∧
    (outs ++ final.toList).map SelectedPesPacket.payload = pess.map List.flatten

/-- **PES reassembly loses nothing.** Whatever the PES packets, with a right length or none, however their bytes
    are cut into payloads of packets with consecutive counters, and whatever packets of other PIDs, packets
    without a payload and retransmissions stand between, as long as no packet of the PID signals a
    discontinuity: the pushes and one `finish` give the PES packets in order. And whatever the packets, no push
    leaves two PES packets waiting, or one while another is in progress. -/
theorem reassembles_pes (pid : UInt16) :
    (∀ (pess : List (List (List UInt8))) (packets : List (List UInt8)), IsPesStream pess →
      Feeds pid (Ignored pid) none (pess.flatMap unitPayloads) packets → Reassembles pid pess packets) ∧
    ∀ (packets : List (List UInt8)) (d : SelectedPidPesDemuxer) (outs : List SelectedPesPacket),
      (new pid).pushAll packets = .ok (d, outs) → Queued d := by
  refine ⟨fun pess packets hpess hfeeds => ?_, fun packets d outs h => queued_pushAll (queued_new pid) h⟩
  have hnew : Position pid (new pid) none none [] := ⟨rfl, queued_new pid, rfl, rfl, fun _ => ⟨rfl, rfl⟩, nofun⟩
  obtain ⟨d, outs, last, current, hall, hposition, hout⟩ := pushAll_spec hfeeds hnew hpess rfl
  obtain ⟨final, hfinish, hfinal⟩ := finish_spec hposition
  refine ⟨d, outs, final, hall, hfinish, ?_⟩
  rw [List.map_append, hfinal, hout]
  rfl

/-- A packet of PID 0x1100 whose payload fills what the adaptation field leaves. -/
def stuffed (start : Bool) (control flags : UInt8) (payload : List UInt8) : List UInt8 :=
  [0x47, if start then 0x51 else 0x11, 0x00, control, (183 - payload.length).toUInt8, flags] ++
    List.replicate (182 - payload.length) 0xff ++ payload

set_option maxRecDepth 4000 in
/-- A packet without a length in two payloads, the first sent twice, and one with a length. -/
theorem reassembles_pes_two : Reassembles 0x1100 [[[0, 0, 1, 0xbd, 0], [0, 0x80, 0, 0, 7]], [[0, 0, 1, 0xbd, 0, 4, 0x80, 0, 0, 9]]]
    [stuffed true 0x35 0 [0, 0, 1, 0xbd, 0], stuffed true 0x35 0 [0, 0, 1, 0xbd, 0], stuffed false 0x20 0 [],
      stuffed false 0x36 0 [0, 0x80, 0, 0, 7], stuffed true 0x37 0 [0, 0, 1, 0xbd, 0, 4, 0x80, 0, 0, 9]] := by
  refine (reassembles_pes 0x1100).1 _ _ (List.forall_mem_cons.2 ⟨?_, List.forall_mem_singleton.2 ?_⟩) ?_
  · exact ⟨by decide, by decide, by decide, by decide⟩
  · exact ⟨by decide, by decide, by decide, by decide⟩
  · refine .next (by exact rfl) nofun (.again (by exact rfl) (.ignored ⟨_, rfl, .inr ⟨rfl, rfl⟩⟩ ?_))
    exact .next (by exact rfl) (by rintro _ ⟨⟩; rfl) (.next (by exact rfl) (by rintro _ ⟨⟩; rfl) .done)

set_option maxRecDepth 4000 in
/-- A discontinuity between the two payloads loses the packet. -/
theorem discontinuity_loses_pes : ¬ ∀ (pid : UInt16) (pess : List (List (List UInt8))) (packets : List (List UInt8)),
    IsPesStream pess → Feeds pid (Beside pid) none (pess.flatMap unitPayloads) packets → Reassembles pid pess packets := by
  intro h
  have hfeeds : Feeds 0x1100 (Beside 0x1100) none [(true, [0, 0, 1, 0xbd, 0]), (false, [0, 0x80, 0, 0, 7])]
      [stuffed true 0x35 0 [0, 0, 1, 0xbd, 0], stuffed false 0x20 0x80 [], stuffed false 0x36 0 [0, 0x80, 0, 0, 7]] :=
    .next (by exact rfl) nofun (.ignored ⟨_, rfl, .inr rfl⟩ (.next (by exact rfl) (by rintro _ ⟨⟩; rfl) .done))
  obtain ⟨d, outs, final, hall, hfinish, hout⟩ := h 0x1100 [[[0, 0, 1, 0xbd, 0], [0, 0x80, 0, 0, 7]]] _
    (List.forall_mem_singleton.2 ⟨by decide, by decide, by decide, by decide⟩) hfeeds
  have hnone : (new 0x1100).pushAll [stuffed true 0x35 0 [0, 0, 1, 0xbd, 0], stuffed false 0x20 0x80 [],
      stuffed false 0x36 0 [0, 0x80, 0, 0, 7]] =
        .ok ({ new 0x1100 with lastContinuityCounter := some 6, lastPayload := some [0, 0x80, 0, 0, 7] }, []) := by
    rfl
  cases hnone.symm.trans hall
  cases hfinish
  cases hout

end Bluray
