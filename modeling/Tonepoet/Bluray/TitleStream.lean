import Mathlib.Tactic
import Tonepoet.Bluray.TsDemux
import Tonepoet.Library.Draining

/-!
# Packets of a title stream (bluray_realize.rs:51-133, 469-601, bluray_ts_demux.rs:16-38, 498-520)

A title is read in pieces of any size, and cut into packets of 188 or 192 bytes. Where a packet does not start with its sync byte, the
reader looks for three sync bytes at the packets' distance. What it cannot decide yet it keeps for the next read.
-/

namespace Bluray

open Draining

/-! ## Packet formats -/

inductive TsPacketFormat where
  | standardTs
  | m2ts
  deriving DecidableEq, Repr

def TsPacketFormat.packetSize : TsPacketFormat → ℕ
  | .standardTs => tsPacketSize
  | .m2ts => 192

def TsPacketFormat.syncByteOffset : TsPacketFormat → ℕ
  | .standardTs => 0
  | .m2ts => 4

def tsResyncConfirmationPackets : ℕ := 3
def tsFormatDetectionConfirmationPackets : ℕ := 4
def tsFormatDetectionMinBytes : ℕ := 4 + (tsFormatDetectionConfirmationPackets - 1) * 192 + 1

/-- `bytes[offset + sync_byte_offset] == 0x47`. -/
def syncAt (format : TsPacketFormat) (bytes : List UInt8) (offset : ℕ) : Bool := bytes[offset + format.syncByteOffset]? == some 0x47

/-- Sync bytes at the distance of the packets. -/
def syncCadence (format : TsPacketFormat) (bytes : List UInt8) (offset confirmations : ℕ) : Bool :=
  (List.range confirmations).all fun i => syncAt format bytes (offset + i * format.packetSize)

/-- `sync_confirmation_bytes_required` (bluray_realize.rs:51). -/
def syncConfirmationBytesRequired (format : TsPacketFormat) (confirmations : ℕ) : ℕ :=
  format.syncByteOffset + (confirmations - 1) * format.packetSize + 1

/-- `has_sync_cadence_at_start` (bluray_realize.rs:56). -/
def hasSyncCadenceAtStart (buf : List UInt8) (format : TsPacketFormat) (confirmations : ℕ) : Bool :=
  if buf.length < syncConfirmationBytesRequired format confirmations then false else syncCadence format buf 0 confirmations

/-- `find_next_ts_sync_at_cadence_with_format` (bluray_ts_demux.rs:498). -/
def findNextTsSyncAtCadenceWithFormat (bytes : List UInt8) (format : TsPacketFormat) : Option ℕ :=
  (List.range bytes.length).find? fun offset => syncCadence format bytes offset tsResyncConfirmationPackets

def noPacketSync : ConvertError :=
  .trackValidation "Blu-ray title stream does not contain recognizable 188-byte TS or 192-byte M2TS packet sync"

/-- `detect_ts_packet_format` (bluray_realize.rs:71). -/
def detectTsPacketFormat (buf : List UInt8) : Except ConvertError TsPacketFormat :=
  if hasSyncCadenceAtStart buf .m2ts tsFormatDetectionConfirmationPackets then .ok .m2ts
  else if hasSyncCadenceAtStart buf .standardTs tsFormatDetectionConfirmationPackets then .ok .standardTs
  else if (findNextTsSyncAtCadenceWithFormat buf .m2ts).isSome then .ok .m2ts
  else if (findNextTsSyncAtCadenceWithFormat buf .standardTs).isSome then .ok .standardTs
  else .error noPacketSync

/-- `eof_buffer_is_compatible_with_format` (bluray_realize.rs:102). -/
def eofBufferIsCompatibleWithFormat (buf : List UInt8) (format : TsPacketFormat) : Bool :=
  if buf.isEmpty ∨ buf.length % format.packetSize ≠ 0 then false else syncCadence format buf 0 (buf.length / format.packetSize)

/-- `detect_ts_packet_format_at_eof` (bluray_realize.rs:115). -/
def detectTsPacketFormatAtEof (buf : List UInt8) : Except ConvertError TsPacketFormat :=
  match detectTsPacketFormat buf with
  | .ok format => .ok format
  | .error _ =>
    if eofBufferIsCompatibleWithFormat buf .m2ts then .ok .m2ts
    else if eofBufferIsCompatibleWithFormat buf .standardTs then .ok .standardTs
    else .error noPacketSync

/-- `ts_resync_retention_bytes` (bluray_realize.rs:131). -/
def tsResyncRetentionBytes (format : TsPacketFormat) : ℕ :=
  format.packetSize * (tsResyncConfirmationPackets - 1) + format.syncByteOffset + 1

/-! ## The loop -/

/-- A turn of the inner loop (bluray_realize.rs:516-576): a packet, a skip to a confirmed sync byte, or what is kept. -/
def nextPacket (format : TsPacketFormat) (b : List UInt8) : Turn (List UInt8) :=
  if b.length < format.packetSize then .wait 0
  else if syncAt format b 0 then .take format.packetSize [(b.drop format.syncByteOffset).take tsPacketSize]
  else
    match findNextTsSyncAtCadenceWithFormat (b.drop 1) format with
    | some syncOffset => .take (syncOffset + 1) []
    | none => .wait (if b.length > tsResyncRetentionBytes format then b.length - tsResyncRetentionBytes format else 0)

/-- The inner loop. Every turn that goes on takes a byte, so that the length is fuel enough. -/
def drainPackets (format : TsPacketFormat) : ℕ → List UInt8 → List (List UInt8) × List UInt8
  | 0, b => ([], b)
  | fuel + 1, b =>
    match nextPacket format b with
    | .wait n => ([], b.drop n)
    | .take n items =>
      let (more, rest) := drainPackets format fuel (b.drop n)
      (items ++ more, rest)

/-- The locals of the loop. -/
structure TitleState where
  packetBuffer : List UInt8
  detectedFormat : Option TsPacketFormat

def TitleState.initial : TitleState := ⟨[], none⟩

/-- The format of a buffer that is not the last one; none where there is too little to tell. -/
def TitleState.formatFor (s : TitleState) (buffer : List UInt8) : Except ConvertError (Option TsPacketFormat) :=
  match s.detectedFormat with
  | some format => .ok (some format)
  | none => if buffer.length < tsFormatDetectionMinBytes then .ok none else (detectTsPacketFormat buffer).map some

/-- What is left behind the last packet (bluray_realize.rs:577-600). -/
def trailing (playlistNumber : String) (format : TsPacketFormat) (rest : List UInt8) : Except ConvertError Unit :=
  let trailing := rest.length
  let packetSize := format.packetSize
  if rest.isEmpty then .ok ()
  else if trailing < packetSize then
    .error (.trackValidation s!"Blu-ray playlist {playlistNumber} ended with {trailing} trailing byte(s), not a complete {packetSize}-byte packet")
  else
    .error (.trackValidation s!"Blu-ray playlist {playlistNumber} ended after sync loss; {trailing} byte(s) remained at {packetSize}-byte cadence")

/-- The turn that reads nothing. -/
def finishTitle (playlistNumber : String) (s : TitleState) : List (List UInt8) × Except ConvertError Unit :=
  if s.packetBuffer.isEmpty then ([], .ok ())
  else
    let detected : Except ConvertError TsPacketFormat := match s.detectedFormat with
      | some format => .ok format
      | none => detectTsPacketFormatAtEof s.packetBuffer
    match detected with
    | .error e => ([], .error e)
    | .ok format =>
      let (packets, rest) := drainPackets format s.packetBuffer.length s.packetBuffer
      (packets, trailing playlistNumber format rest)

/-- The packets that the loop of `realize_lpcm_from_libbluray_title` hands to the demuxer, for reads that return these bytes, and how it ends
when the demuxer does not stop it. -/
def readTitle (playlistNumber : String) (s : TitleState) : List (List UInt8) → List (List UInt8) × Except ConvertError Unit
  | [] => finishTitle playlistNumber s
  | read :: reads =>
    let buffer := s.packetBuffer ++ read
    match s.formatFor buffer with
    | .error e => ([], .error e)
    | .ok none => readTitle playlistNumber ⟨buffer, none⟩ reads
    | .ok (some format) =>
      let (packets, rest) := drainPackets format buffer.length buffer
      let (more, outcome) := readTitle playlistNumber ⟨rest, some format⟩ reads
      (packets ++ more, outcome)

/-! ## Sync bytes in a longer buffer -/

variable {format : TsPacketFormat} {b r : List UInt8} {offset : ℕ}

theorem packetSize_pos (format : TsPacketFormat) : 0 < format.packetSize := by
  cases format <;> decide

theorem syncByteOffset_lt (format : TsPacketFormat) : format.syncByteOffset < format.packetSize := by
  cases format <;> decide

theorem syncAt_drop (n : ℕ) (b : List UInt8) (offset : ℕ) : syncAt format (b.drop n) offset = syncAt format b (n + offset) := by
  unfold syncAt
  rw [List.getElem?_drop, Nat.add_assoc]

theorem syncCadence_drop (n : ℕ) (b : List UInt8) (offset confirmations : ℕ) :
    syncCadence format (b.drop n) offset confirmations = syncCadence format b (n + offset) confirmations := by
  unfold syncCadence
  simp only [syncAt_drop, Nat.add_assoc]

theorem syncAt_append (h : offset + format.syncByteOffset < b.length) (r : List UInt8) : syncAt format (b ++ r) offset = syncAt format b offset := by
  unfold syncAt
  rw [List.getElem?_append_left h]

/-- Sync bytes that are all in the buffer. -/
theorem syncCadence_append {confirmations : ℕ} (h : offset + (confirmations - 1) * format.packetSize + format.syncByteOffset < b.length)
    (r : List UInt8) : syncCadence format (b ++ r) offset confirmations = syncCadence format b offset confirmations := by
  unfold syncCadence
  rw [Bool.eq_iff_iff, List.all_eq_true, List.all_eq_true]
  refine forall₂_congr fun i hi => ?_
  have hle : i * format.packetSize ≤ (confirmations - 1) * format.packetSize :=
    Nat.mul_le_mul_right _ (Nat.le_sub_one_of_lt (List.mem_range.1 hi))
  rw [syncAt_append (by omega)]

/-- Sync bytes are in the buffer. -/
theorem lt_of_syncCadence {confirmations : ℕ} (h : syncCadence format b offset (confirmations + 1) = true) :
    offset + confirmations * format.packetSize + format.syncByteOffset < b.length := by
  have hlast := List.all_eq_true.1 h confirmations (List.mem_range.2 (Nat.lt_succ_self _))
  unfold syncAt at hlast
  rw [beq_iff_eq] at hlast
  exact (List.getElem?_eq_some_iff.1 hlast).1

theorem lt_of_resync (h : syncCadence format b offset tsResyncConfirmationPackets = true) :
    offset + 2 * format.packetSize + format.syncByteOffset < b.length := lt_of_syncCadence h

/-- Where a search finds the first sync byte, and that it finds none. -/
theorem find_eq_some {k : ℕ} : findNextTsSyncAtCadenceWithFormat b format = some k ↔
    syncCadence format b k tsResyncConfirmationPackets = true ∧ ∀ i < k, syncCadence format b i tsResyncConfirmationPackets = false := by
  unfold findNextTsSyncAtCadenceWithFormat
  rw [List.find?_range_eq_some]
  simp only [List.mem_range, Bool.not_eq_true']
  constructor
  · rintro ⟨h, -, hnone⟩
    exact ⟨h, hnone⟩
  · rintro ⟨h, hnone⟩
    have hlt := lt_of_resync h
    exact ⟨h, by omega, hnone⟩

theorem find_eq_none : findNextTsSyncAtCadenceWithFormat b format = none ↔ ∀ i, syncCadence format b i tsResyncConfirmationPackets = false := by
  unfold findNextTsSyncAtCadenceWithFormat
  rw [List.find?_range_eq_none]
  simp only [Bool.not_eq_true']
  constructor
  · intro h i
    by_contra hsync
    rw [Bool.not_eq_false] at hsync
    have hlt := lt_of_resync hsync
    rw [h i (by omega)] at hsync
    cases hsync
  · intro h i _
    exact h i

/-! ## Turns of the inner loop -/

/-- What is kept is not taken for a packet. -/
def Quiet (format : TsPacketFormat) (kept : List UInt8) : Prop := format.packetSize ≤ kept.length → syncAt format kept 0 = false

theorem nextPacket_short (h : b.length < format.packetSize) : nextPacket format b = .wait 0 := if_pos h

theorem nextPacket_packet (h : format.packetSize ≤ b.length) (hsync : syncAt format b 0 = true) :
    nextPacket format b = .take format.packetSize [(b.drop format.syncByteOffset).take tsPacketSize] := by
  unfold nextPacket
  rw [if_neg (not_lt.2 h), if_pos hsync]

theorem nextPacket_found {k : ℕ} (h : format.packetSize ≤ b.length) (hsync : syncAt format b 0 = false)
    (hfind : findNextTsSyncAtCadenceWithFormat (b.drop 1) format = some k) : nextPacket format b = .take (k + 1) [] := by
  unfold nextPacket
  rw [if_neg (not_lt.2 h), hsync, if_neg Bool.false_ne_true, hfind]

theorem nextPacket_lost (h : format.packetSize ≤ b.length) (hsync : syncAt format b 0 = false)
    (hfind : findNextTsSyncAtCadenceWithFormat (b.drop 1) format = none) :
    nextPacket format b = .wait (if b.length > tsResyncRetentionBytes format then b.length - tsResyncRetentionBytes format else 0) := by
  unfold nextPacket
  rw [if_neg (not_lt.2 h), hsync, if_neg Bool.false_ne_true, hfind]

/-- The turns. -/
theorem nextPacket_cases (format : TsPacketFormat) (b : List UInt8) : b.length < format.packetSize ∨
    (format.packetSize ≤ b.length ∧ syncAt format b 0 = true) ∨
    (format.packetSize ≤ b.length ∧ syncAt format b 0 = false ∧ ∃ k, findNextTsSyncAtCadenceWithFormat (b.drop 1) format = some k) ∨
    (format.packetSize ≤ b.length ∧ syncAt format b 0 = false ∧ findNextTsSyncAtCadenceWithFormat (b.drop 1) format = none) := by
  by_cases hlen : b.length < format.packetSize
  · exact .inl hlen
  have hle := not_lt.1 hlen
  cases hsync : syncAt format b 0 with
  | true => exact .inr (.inl ⟨hle, rfl⟩)
  | false =>
    cases hfind : findNextTsSyncAtCadenceWithFormat (b.drop 1) format with
    | some k => exact .inr (.inr (.inl ⟨hle, rfl, k, rfl⟩))
    | none => exact .inr (.inr (.inr ⟨hle, rfl, rfl⟩))

theorem packetSize_le_retention (format : TsPacketFormat) : format.packetSize ≤ tsResyncRetentionBytes format := by
  cases format <;> decide

/-- A search goes over the bytes that are dropped, and finds what a search behind them finds. -/
theorem find_drop {n : ℕ} (hnone : ∀ i, 1 ≤ i → i ≤ n → syncCadence format b i tsResyncConfirmationPackets = false) :
    findNextTsSyncAtCadenceWithFormat (b.drop 1) format =
      (findNextTsSyncAtCadenceWithFormat ((b.drop n).drop 1) format).map (n + ·) := by
  cases hfind : findNextTsSyncAtCadenceWithFormat ((b.drop n).drop 1) format with
  | some k =>
    rw [find_eq_some] at hfind
    simp only [syncCadence_drop] at hfind
    rw [Option.map_some, find_eq_some]
    simp only [syncCadence_drop]
    refine ⟨?_, fun i hi => ?_⟩
    · rw [show 1 + (n + k) = n + (1 + k) by omega]
      exact hfind.1
    · by_cases hin : 1 + i ≤ n
      · exact hnone _ (by omega) hin
      · have hbehind := hfind.2 (i - n) (by omega)
        rwa [show n + (1 + (i - n)) = 1 + i by omega] at hbehind
  | none =>
    rw [find_eq_none] at hfind
    simp only [syncCadence_drop] at hfind
    rw [Option.map_none, find_eq_none]
    simp only [syncCadence_drop]
    intro i
    by_cases hin : 1 + i ≤ n
    · exact hnone _ (by omega) hin
    · have hbehind := hfind (i - n)
      rwa [show n + (1 + (i - n)) = 1 + i by omega] at hbehind

/-- What can be confirmed in a buffer and is not, is not confirmed with more behind it. -/
theorem none_before (hnone : findNextTsSyncAtCadenceWithFormat (b.drop 1) format = none) (r : List UInt8) {i : ℕ} (hi : 1 ≤ i)
    (hin : i + tsResyncRetentionBytes format ≤ b.length) : syncCadence format (b ++ r) i tsResyncConfirmationPackets = false := by
  have hretention : tsResyncRetentionBytes format = (tsResyncConfirmationPackets - 1) * format.packetSize + format.syncByteOffset + 1 := by
    unfold tsResyncRetentionBytes
    rw [Nat.mul_comm]
  have hcadence := find_eq_none.1 hnone (i - 1)
  rw [syncCadence_drop, show 1 + (i - 1) = i by omega] at hcadence
  rw [syncCadence_append (by omega), hcadence]

theorem steady_take {n : ℕ} {items : List (List UInt8)} (h : nextPacket format b = .take n items) :
    n ≤ b.length ∧ ∀ r, nextPacket format (b ++ r) = .take n items := by
  have hoffset := syncByteOffset_lt format
  rcases nextPacket_cases format b with hshort | ⟨hle, hsync⟩ | ⟨hle, hsync, k, hfind⟩ | ⟨hle, hsync, hfind⟩
  · rw [nextPacket_short hshort] at h
    cases h
  · rw [nextPacket_packet hle hsync] at h
    cases h
    refine ⟨hle, fun r => ?_⟩
    have hsize : format.packetSize = format.syncByteOffset + tsPacketSize := by cases format <;> rfl
    rw [nextPacket_packet (by rw [List.length_append]; omega) (by rwa [syncAt_append (by omega)]),
      List.drop_append_of_le_length (by omega), List.take_append_of_le_length (by rw [List.length_drop]; omega)]
  · rw [nextPacket_found hle hsync hfind] at h
    cases h
    have hk := find_eq_some.1 hfind
    have hlt := lt_of_resync hk.1
    rw [List.length_drop] at hlt
    refine ⟨by omega, fun r => ?_⟩
    refine nextPacket_found (by rw [List.length_append]; omega) (by rwa [syncAt_append (by omega)]) ?_
    rw [List.drop_append_of_le_length (by omega), find_eq_some]
    have hwithin : ∀ i ≤ k, syncCadence format (b.drop 1 ++ r) i tsResyncConfirmationPackets =
        syncCadence format (b.drop 1) i tsResyncConfirmationPackets := by
      intro i hi
      refine syncCadence_append ?_ r
      rw [List.length_drop]
      unfold tsResyncConfirmationPackets
      omega
    rw [hwithin k (le_refl k)]
    exact ⟨hk.1, fun i hi => (hwithin i hi.le).trans (hk.2 i hi)⟩
  · rw [nextPacket_lost hle hsync hfind] at h
    cases h

theorem steady_wait {n : ℕ} (h : nextPacket format b = .wait n) (hquiet : Quiet format (b.drop n)) :
    nextPacket format (b.drop n) = .wait 0 ∧
      ∀ r items b', Drains (nextPacket format) (b.drop n ++ r) items b' → Drains (nextPacket format) (b ++ r) items b' := by
  have hretention := packetSize_le_retention format
  rcases nextPacket_cases format b with hshort | ⟨hle, hsync⟩ | ⟨hle, hsync, k, hfind⟩ | ⟨hle, hsync, hfind⟩
  · rw [nextPacket_short hshort] at h
    cases h
    rw [List.drop_zero]
    exact ⟨nextPacket_short hshort, fun r items b' h => h⟩
  · rw [nextPacket_packet hle hsync] at h
    cases h
  · rw [nextPacket_found hle hsync hfind] at h
    cases h
  · have hnext := nextPacket_lost hle hsync hfind
    rw [hnext] at h
    by_cases hlong : b.length > tsResyncRetentionBytes format
    swap
    · rw [if_neg hlong] at h hnext
      cases h
      rw [List.drop_zero]
      exact ⟨hnext, fun r items b' h => h⟩
    rw [if_pos hlong] at h
    cases h
    obtain ⟨n, hn⟩ : ∃ n, b.length - tsResyncRetentionBytes format = n := ⟨_, rfl⟩
    rw [hn] at hquiet ⊢
    have hkept : (b.drop n).length = tsResyncRetentionBytes format := by
      rw [List.length_drop]
      omega
    have hsync' : syncAt format (b.drop n) 0 = false := hquiet (by omega)
    -- every place that is dropped could be confirmed, and was not
    have hbefore : ∀ r i, 1 ≤ i → i ≤ n → syncCadence format (b ++ r) i tsResyncConfirmationPackets = false :=
      fun r i hi hin => none_before hfind r hi (by omega)
    constructor
    · have hfind' := find_drop (hbefore [])
      rw [List.append_nil, hfind] at hfind'
      have hnone := (Option.map_eq_none_iff.1 hfind'.symm)
      rw [nextPacket_lost (by omega) hsync' hnone, if_neg (by omega)]
    · intro r items b' hdrains
      have hdrop : b.drop n ++ r = (b ++ r).drop n := (List.drop_append_of_le_length (by omega)).symm
      have hle' : format.packetSize ≤ (b ++ r).length := by
        rw [List.length_append]
        omega
      have hstart : syncAt format (b ++ r) 0 = false := by
        have hoffset := syncByteOffset_lt format
        rwa [syncAt_append (by omega)]
      have hstart' : syncAt format (b.drop n ++ r) 0 = false := by
        have hoffset := syncByteOffset_lt format
        rwa [syncAt_append (by omega)]
      have hfind' := find_drop (hbefore r)
      rw [← hdrop] at hfind'
      cases hfound : findNextTsSyncAtCadenceWithFormat ((b.drop n ++ r).drop 1) format with
      | some k =>
        rw [hfound, Option.map_some] at hfind'
        have hhere := nextPacket_found (by rw [List.length_append]; omega) hstart' hfound
        cases hdrains with
        | wait hwait =>
          rw [hhere] at hwait
          cases hwait
        | take htake hmore =>
          rw [hhere] at htake
          cases htake
          refine .take (nextPacket_found hle' hstart hfind') ?_
          rwa [hdrop, List.drop_drop, ← Nat.add_assoc] at hmore
      | none =>
        rw [hfound, Option.map_none] at hfind'
        have hhere := nextPacket_lost (by rw [List.length_append]; omega) hstart' hfound
        have hlength : (b.drop n ++ r).length = tsResyncRetentionBytes format + r.length := by rw [List.length_append, hkept]
        have hlost := nextPacket_lost hle' hstart hfind'
        rw [List.length_append, if_pos (by omega)] at hlost
        cases hdrains with
        | take htake _ =>
          rw [hhere] at htake
          cases htake
        | @wait _ m hwait =>
          have hm : m = r.length := by
            rw [hhere, hlength] at hwait
            split_ifs at hwait <;> cases hwait <;> omega
          have hcut : (b.drop n ++ r).drop m = (b ++ r).drop (b.length + r.length - tsResyncRetentionBytes format) := by
            rw [hdrop, List.drop_drop, hm]
            congr 1
            omega
          rw [hcut]
          exact .wait hlost

/-- **The turns do not change when more comes**, where what is kept is not taken for a packet. -/
theorem steady (format : TsPacketFormat) : Steady (nextPacket format) (Quiet format) :=
  ⟨steady_take, steady_wait⟩

theorem drains_drainPackets (format : TsPacketFormat) {b : List UInt8} {fuel : ℕ} (h : b.length ≤ fuel) :
    Drains (nextPacket format) b (drainPackets format fuel b).1 (drainPackets format fuel b).2 := by
  have hsize := packetSize_pos format
  induction fuel generalizing b with
  | zero =>
    obtain rfl := List.eq_nil_of_length_eq_zero (Nat.le_zero.1 h)
    exact Drains.wait (n := 0) (nextPacket_short hsize)
  | succ fuel ih =>
    unfold drainPackets
    cases hnext : nextPacket format b with
    | wait n => exact .wait hnext
    | take n items =>
      -- a turn that goes on takes a byte
      have htakes : 0 < n := by
        rcases nextPacket_cases format b with hshort | ⟨hle, hsync⟩ | ⟨hle, hsync, k, hfind⟩ | ⟨hle, hsync, hfind⟩
        · rw [nextPacket_short hshort] at hnext
          cases hnext
        · rw [nextPacket_packet hle hsync] at hnext
          cases hnext
          exact hsize
        · rw [nextPacket_found hle hsync hfind] at hnext
          cases hnext
          omega
        · rw [nextPacket_lost hle hsync hfind] at hnext
          cases hnext
      have hle := (steady_take hnext).1
      exact .take hnext (ih (by rw [List.length_drop]; omega))

/-! ## Runs -/

variable {stream : List UInt8} {reads reads' : List (List UInt8)}

/-- What the reads leave in the buffer, once the format is known. -/
def TitleState.kept (s : TitleState) : List (List UInt8) → List (TsPacketFormat × List UInt8)
  | [] => []
  | read :: reads =>
    let buffer := s.packetBuffer ++ read
    match s.formatFor buffer with
    | .error _ => []
    | .ok none => (TitleState.mk buffer none).kept reads
    | .ok (some format) =>
      let rest := (drainPackets format buffer.length buffer).2
      (format, rest) :: (TitleState.mk rest (some format)).kept reads

/-- No read leaves what is taken for a packet without a confirmation. -/
def QuietRun (s : TitleState) (reads : List (List UInt8)) : Prop := ∀ kept ∈ s.kept reads, Quiet kept.1 kept.2

/-- The stream begins with four packets of one cadence. -/
structure StartsWith (format : TsPacketFormat) (stream : List UInt8) : Prop where
  length : tsFormatDetectionMinBytes ≤ stream.length
  cadence : syncCadence format stream 0 tsFormatDetectionConfirmationPackets = true
  preferred : format = .standardTs → syncCadence .m2ts stream 0 tsFormatDetectionConfirmationPackets = false

/-- The bytes that are read first tell the format. -/
theorem StartsWith.detect (h : StartsWith format (b ++ r)) (hlen : tsFormatDetectionMinBytes ≤ b.length) : detectTsPacketFormat b = .ok format := by
  have hmin : tsFormatDetectionMinBytes = 581 := by decide
  have hcadence : ∀ format', hasSyncCadenceAtStart b format' tsFormatDetectionConfirmationPackets =
      syncCadence format' (b ++ r) 0 tsFormatDetectionConfirmationPackets := by
    intro format'
    have hrequired : syncConfirmationBytesRequired format' tsFormatDetectionConfirmationPackets ≤ 581 := by cases format' <;> decide
    have hin : 0 + (tsFormatDetectionConfirmationPackets - 1) * format'.packetSize + format'.syncByteOffset < b.length := by
      have hlast : (tsFormatDetectionConfirmationPackets - 1) * format'.packetSize + format'.syncByteOffset < 581 := by cases format' <;> decide
      omega
    unfold hasSyncCadenceAtStart
    rw [if_neg (by omega), syncCadence_append hin]
  unfold detectTsPacketFormat
  rw [hcadence, hcadence]
  cases format with
  | m2ts => rw [if_pos h.cadence]
  | standardTs => rw [if_neg (by rw [h.preferred rfl]; exact Bool.false_ne_true), if_pos h.cadence]

/-- The loop, once it knows the format. -/
theorem readTitle_known (playlistNumber : String) (hquiet : QuietRun ⟨b, some format⟩ reads) (hb : Drains (nextPacket format) b [] b) :
    ∃ packets rest, Drains (nextPacket format) (b ++ reads.flatten) packets rest ∧
      readTitle playlistNumber ⟨b, some format⟩ reads = (packets, trailing playlistNumber format rest) := by
  induction reads generalizing b with
  | nil =>
    refine ⟨[], b, by rwa [List.flatten_nil, List.append_nil], ?_⟩
    unfold readTitle finishTitle
    cases hempty : b.isEmpty with
    | true =>
      unfold trailing
      simp [hempty]
    | false =>
      obtain ⟨hpackets, hrest⟩ := (drains_drainPackets format (le_refl b.length)).unique hb
      simp [hpackets, hrest]
  | cons read reads ih =>
    have hdrains := drains_drainPackets format (le_refl (b ++ read).length)
    obtain ⟨hkept, hquiet'⟩ := List.forall_mem_cons.1 hquiet
    obtain ⟨packets, rest, hmore, hread⟩ := ih hquiet' (hdrains.again (steady format) hkept)
    rw [List.flatten_cons, ← List.append_assoc]
    refine ⟨_, rest, hdrains.append (steady format) hkept hmore, ?_⟩
    rw [readTitle]
    unfold TitleState.formatFor
    dsimp only
    rw [hread]

/-- The loop, from its start. -/
theorem readTitle_unknown (playlistNumber : String) (hquiet : QuietRun ⟨b, none⟩ reads) (hstart : StartsWith format (b ++ reads.flatten))
    (hb : b.length < tsFormatDetectionMinBytes) :
    ∃ packets rest, Drains (nextPacket format) (b ++ reads.flatten) packets rest ∧
      readTitle playlistNumber ⟨b, none⟩ reads = (packets, trailing playlistNumber format rest) := by
  induction reads generalizing b with
  | nil =>
    have hlen := hstart.length
    rw [List.flatten_nil, List.append_nil] at hlen
    omega
  | cons read reads ih =>
    rw [List.flatten_cons, ← List.append_assoc] at hstart ⊢
    by_cases hfew : (b ++ read).length < tsFormatDetectionMinBytes
    · have hformat : TitleState.formatFor ⟨b, none⟩ (b ++ read) = .ok none := if_pos hfew
      have hquiet' : QuietRun ⟨b ++ read, none⟩ reads := by
        unfold QuietRun TitleState.kept at hquiet
        dsimp only at hquiet
        rwa [hformat] at hquiet
      obtain ⟨packets, rest, hdrains, hread⟩ := ih hquiet' hstart hfew
      refine ⟨packets, rest, hdrains, ?_⟩
      rw [readTitle]
      dsimp only
      rw [hformat]
      exact hread
    · have hformat : TitleState.formatFor ⟨b, none⟩ (b ++ read) = .ok (some format) := by
        unfold TitleState.formatFor
        dsimp only
        rw [if_neg hfew, hstart.detect (not_lt.1 hfew)]
        rfl
      unfold QuietRun TitleState.kept at hquiet
      dsimp only at hquiet
      rw [hformat] at hquiet
      obtain ⟨hkept, hquiet'⟩ := List.forall_mem_cons.1 hquiet
      have hdrains := drains_drainPackets format (le_refl (b ++ read).length)
      obtain ⟨packets, rest, hmore, hread⟩ := readTitle_known playlistNumber hquiet' (hdrains.again (steady format) hkept)
      refine ⟨_, rest, hdrains.append (steady format) hkept hmore, ?_⟩
      rw [readTitle]
      dsimp only
      rw [hformat]
      dsimp only
      rw [hread]

/-- **The reads do not matter**: where no read leaves what is taken for a packet without a confirmation, a title gives the same packets and ends
in the same way for all pieces it is read in. -/
theorem readTitle_pieces (playlistNumber : String) (hstart : StartsWith format stream) (hreads : reads.flatten = stream)
    (hreads' : reads'.flatten = stream) (hquiet : QuietRun .initial reads) (hquiet' : QuietRun .initial reads') :
    readTitle playlistNumber .initial reads = readTitle playlistNumber .initial reads' := by
  have hfew : ([] : List UInt8).length < tsFormatDetectionMinBytes := by decide
  obtain ⟨packets, rest, hdrains, hread⟩ := readTitle_unknown playlistNumber hquiet (by rwa [List.nil_append, hreads]) hfew
  obtain ⟨packets', rest', hdrains', hread'⟩ := readTitle_unknown playlistNumber hquiet' (by rwa [List.nil_append, hreads']) hfew
  rw [List.nil_append, hreads] at hdrains
  rw [List.nil_append, hreads'] at hdrains'
  obtain ⟨rfl, rfl⟩ := hdrains.unique hdrains'
  exact hread.trans hread'.symm

/-! ## A stream that keeps its cadence -/

/-- Every whole packet starts with its sync byte. -/
def InSync (format : TsPacketFormat) (stream : List UInt8) : Prop :=
  ∀ k, (k + 1) * format.packetSize ≤ stream.length → syncAt format stream (k * format.packetSize) = true

/-- The packets of a stream, and what is behind them. -/
def packetsOf (format : TsPacketFormat) (stream : List UInt8) : List (List UInt8) :=
  (List.range (stream.length / format.packetSize)).map fun k => (stream.drop (k * format.packetSize + format.syncByteOffset)).take tsPacketSize

theorem InSync.front (h : InSync format (b ++ r)) : InSync format b := by
  intro k hk
  have hoffset := syncByteOffset_lt format
  have hle : (k + 1) * format.packetSize = k * format.packetSize + format.packetSize := Nat.succ_mul _ _
  have hsync := h k (by rw [List.length_append]; omega)
  rwa [syncAt_append (by omega)] at hsync

theorem InSync.behind (h : InSync format b) (n : ℕ) : InSync format (b.drop (n * format.packetSize)) := by
  intro k hk
  rw [List.length_drop] at hk
  have hsum : (n + k + 1) * format.packetSize = n * format.packetSize + (k + 1) * format.packetSize := by rw [← Nat.add_mul, Nat.add_assoc]
  have hpos := packetSize_pos format
  have hle : format.packetSize ≤ (k + 1) * format.packetSize := Nat.le_mul_of_pos_left _ (Nat.succ_pos k)
  have hsync := h (n + k) (by omega)
  rwa [syncAt_drop, ← Nat.add_mul]

theorem InSync.drains (h : InSync format b) :
    Drains (nextPacket format) b (packetsOf format b) (b.drop (b.length / format.packetSize * format.packetSize)) := by
  have hpos := packetSize_pos format
  obtain ⟨n, hn⟩ : ∃ n, b.length / format.packetSize = n := ⟨_, rfl⟩
  induction n generalizing b with
  | zero =>
    have hshort : b.length < format.packetSize := by
      rcases Nat.div_eq_zero_iff.1 hn with hzero | hlt
      · omega
      · exact hlt
    unfold packetsOf
    rw [hn, Nat.zero_mul]
    exact .wait (nextPacket_short hshort)
  | succ n ih =>
    have hle : format.packetSize ≤ b.length := by
      by_contra hlt
      rw [Nat.div_eq_of_lt (not_le.1 hlt)] at hn
      cases hn
    have hstart := h 0 (by rwa [Nat.zero_add, Nat.one_mul])
    rw [Nat.zero_mul] at hstart
    have hone := h.behind 1
    rw [Nat.one_mul] at hone
    have hlen : (b.drop format.packetSize).length / format.packetSize = n := by
      have hdiv := Nat.div_eq_sub_div hpos hle
      rw [List.length_drop]
      omega
    have hmore := ih hone hlen
    have hrest : (b.drop format.packetSize).drop (n * format.packetSize) = b.drop ((n + 1) * format.packetSize) := by
      rw [List.drop_drop, Nat.succ_mul, Nat.add_comm]
    have hpackets : packetsOf format b = [(b.drop format.syncByteOffset).take tsPacketSize] ++ packetsOf format (b.drop format.packetSize) := by
      unfold packetsOf
      rw [hn, hlen, List.range_succ_eq_map, List.map_cons, List.map_map, Nat.zero_mul, Nat.zero_add]
      refine congrArg _ (List.map_congr_left fun k _ => ?_)
      rw [Function.comp_apply, List.drop_drop, Nat.succ_mul]
      congr 2
      omega
    rw [hlen, hrest] at hmore
    rw [hpackets, hn]
    exact .take (nextPacket_packet hle hstart) hmore

theorem InSync.short (format : TsPacketFormat) (b : List UInt8) :
    (b.drop (b.length / format.packetSize * format.packetSize)).length < format.packetSize := by
  have hmod := Nat.mod_lt b.length (packetSize_pos format)
  have hdiv := Nat.div_add_mod' b.length format.packetSize
  rw [List.length_drop]
  omega

/-- Such a stream leaves less than a packet behind every read. -/
theorem InSync.quietRun {s : TitleState} (h : InSync format (s.packetBuffer ++ reads.flatten))
    (hformat : s.detectedFormat = some format ∨ s.detectedFormat = none ∧ StartsWith format (s.packetBuffer ++ reads.flatten)) : QuietRun s reads := by
  induction reads generalizing s with
  | nil => exact nofun
  | cons read reads ih =>
    obtain ⟨b, detected⟩ := s
    dsimp only at h hformat
    rw [List.flatten_cons, ← List.append_assoc] at h hformat
    unfold QuietRun TitleState.kept
    dsimp only
    -- once the format is known, whole packets are taken and less than one is kept
    have hknown : ∀ kept ∈ (format, (drainPackets format (b ++ read).length (b ++ read)).2) ::
        (TitleState.mk (drainPackets format (b ++ read).length (b ++ read)).2 (some format)).kept reads, Quiet kept.1 kept.2 := by
      obtain ⟨-, hrest⟩ := (drains_drainPackets format (le_refl (b ++ read).length)).unique h.front.drains
      rw [hrest]
      refine List.forall_mem_cons.2 ⟨fun hle => absurd hle (not_le.2 (InSync.short format _)), ?_⟩
      have hmore : InSync format ((b ++ read).drop ((b ++ read).length / format.packetSize * format.packetSize) ++ reads.flatten) := by
        rw [← List.drop_append_of_le_length (Nat.div_mul_le_self _ _)]
        exact h.behind _
      exact ih hmore (.inl rfl)
    rcases hformat with rfl | ⟨rfl, hstart⟩
    · exact hknown
    · by_cases hfew : (b ++ read).length < tsFormatDetectionMinBytes
      · have hwait : TitleState.formatFor ⟨b, none⟩ (b ++ read) = .ok none := if_pos hfew
        rw [hwait]
        exact ih h (.inr ⟨rfl, hstart⟩)
      · have hdetect : TitleState.formatFor ⟨b, none⟩ (b ++ read) = .ok (some format) := by
          unfold TitleState.formatFor
          dsimp only
          rw [if_neg hfew, hstart.detect (not_lt.1 hfew)]
          rfl
        rw [hdetect]
        exact hknown

/-- **A title that keeps its cadence** is cut at every packet, for all pieces it is read in. -/
theorem readTitle_inSync (playlistNumber : String) (hstart : StartsWith format stream) (hsync : InSync format stream)
    (hreads : reads.flatten = stream) :
    readTitle playlistNumber .initial reads =
      (packetsOf format stream, trailing playlistNumber format (stream.drop (stream.length / format.packetSize * format.packetSize))) := by
  have hfew : ([] : List UInt8).length < tsFormatDetectionMinBytes := by decide
  have hsync' : InSync format (TitleState.initial.packetBuffer ++ reads.flatten) := hreads ▸ hsync
  have hquiet : QuietRun .initial reads := hsync'.quietRun (.inr ⟨rfl, hreads ▸ hstart⟩)
  obtain ⟨packets, rest, hdrains, hread⟩ := readTitle_unknown playlistNumber hquiet (by rwa [List.nil_append, hreads]) hfew
  rw [List.nil_append, hreads] at hdrains
  obtain ⟨rfl, rfl⟩ := hdrains.unique hsync.drains
  exact hread

def fourPackets : List UInt8 := (List.replicate 4 (0x47 :: List.replicate 187 0)).flatten

theorem startsWith_fourPackets : StartsWith .standardTs fourPackets := ⟨by decide +kernel, by decide +kernel, fun _ => by decide +kernel⟩

theorem inSync_fourPackets : InSync .standardTs fourPackets := by
  have hlen : fourPackets.length = 4 * TsPacketFormat.standardTs.packetSize := by decide +kernel
  have hall : ∀ k < 4, syncAt .standardTs fourPackets (k * TsPacketFormat.standardTs.packetSize) = true := by decide +kernel
  intro k hk
  rw [hlen] at hk
  exact hall k (Nat.le_of_mul_le_mul_right hk (packetSize_pos .standardTs))

/-- Four packets in one read. -/
theorem readTitle_inSync_fourPackets : readTitle "00001" .initial [fourPackets] =
    (packetsOf .standardTs fourPackets, trailing "00001" .standardTs
      (fourPackets.drop (fourPackets.length / TsPacketFormat.standardTs.packetSize * TsPacketFormat.standardTs.packetSize))) :=
  readTitle_inSync "00001" startsWith_fourPackets inSync_fourPackets List.flatten_singleton

/-- Four packets in two reads. -/
theorem readTitle_pieces_fourPackets :
    readTitle "00001" .initial [fourPackets] = readTitle "00001" .initial [fourPackets.take 300, fourPackets.drop 300] := by
  have htwo : [fourPackets.take 300, fourPackets.drop 300].flatten = fourPackets := by
    rw [List.flatten_cons, List.flatten_singleton, List.take_append_drop]
  have hquiet : ∀ reads : List (List UInt8), reads.flatten = fourPackets → QuietRun .initial reads := by
    intro reads hreads
    have hsync : InSync .standardTs (TitleState.initial.packetBuffer ++ reads.flatten) := hreads ▸ inSync_fourPackets
    exact hsync.quietRun (.inr ⟨rfl, hreads ▸ startsWith_fourPackets⟩)
  have hone : [fourPackets].flatten = fourPackets := List.flatten_singleton
  exact readTitle_pieces "00001" startsWith_fourPackets hone htwo (hquiet _ hone) (hquiet _ htwo)

end Bluray
