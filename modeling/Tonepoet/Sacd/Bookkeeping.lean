import Mathlib.Data.List.Basic
import Tonepoet.Sacd.FrameReader

/-!
# What the frame reader writes down

The counters a caller sees agree with what happened: with the frames it was given, the sectors that were taken and the events that were
recorded, after any number of calls and over any image.
-/

namespace Sacd

open Rust KeptState

/-! ## What a sector leaves alone -/

/-- What processing a sector may not touch: the place, and the counters that `next_frame` keeps. Dropped frames are counted with their events,
and the end of the window is passed for good. -/
structure Kept (s t : Reading) : Prop where
  curLsn : t.curLsn = s.curLsn
  framesEmitted : t.stats.framesEmitted = s.stats.framesEmitted
  bytesEmitted : t.stats.bytesEmitted = s.stats.bytesEmitted
  sectorsRead : t.stats.sectorsRead = s.stats.sectorsRead
  sectorsSkipped : t.stats.sectorsSkipped = s.stats.sectorsSkipped
  malformedSectors : t.stats.malformedSectors = s.stats.malformedSectors
  ioErrors : t.stats.ioErrors = s.stats.ioErrors
  recoveryEvents : t.stats.recoveryEvents = s.stats.recoveryEvents
  dropped : s.stats.droppedFrameEvents.length = s.stats.framesDroppedIncomplete →
    t.stats.droppedFrameEvents.length = t.stats.framesDroppedIncomplete
  past : s.pastTimeFilterEnd = true → t.pastTimeFilterEnd = true

instance : IsPreorder Reading Kept where
  refl _ := ⟨rfl, rfl, rfl, rfl, rfl, rfl, rfl, rfl, id, id⟩
  trans _ _ _ h h' :=
    { curLsn := h'.curLsn.trans h.curLsn
      framesEmitted := h'.framesEmitted.trans h.framesEmitted
      bytesEmitted := h'.bytesEmitted.trans h.bytesEmitted
      sectorsRead := h'.sectorsRead.trans h.sectorsRead
      sectorsSkipped := h'.sectorsSkipped.trans h.sectorsSkipped
      malformedSectors := h'.malformedSectors.trans h.malformedSectors
      ioErrors := h'.ioErrors.trans h.ioErrors
      recoveryEvents := h'.recoveryEvents.trans h.recoveryEvents
      dropped := fun hs => h'.dropped (h.dropped hs)
      past := fun hs => h'.past (h.past hs) }

theorem kept_setFrames (s : Reading) (pending : Option PendingFrame) (ready : List Frame) :
    Kept s { s with pending := pending, ready := ready } := ⟨rfl, rfl, rfl, rfl, rfl, rfl, rfl, rfl, id, id⟩

/-- Nothing happens to the frames either. -/
structure Quiet (s t : Reading) : Prop extends Kept s t where
  pending : t.pending = s.pending
  ready : t.ready = s.ready

instance : IsPreorder Reading Quiet where
  refl s := ⟨refl_of Kept s, rfl, rfl⟩
  trans _ _ _ h h' := ⟨trans_of Kept h.toKept h'.toKept, h'.pending.trans h.pending, h'.ready.trans h.ready⟩

/-- What is counted along the way. -/
theorem countStats_quiet {f : FrameReaderStats → FrameReaderStats} (hf : ∀ s : Reading, Quiet s { s with stats := f s.stats }) :
    Preserves Quiet (countStats f) := Preserves.modify hf

theorem countFiltered_quiet : Preserves Quiet countFiltered :=
  countStats_quiet fun _ => ⟨⟨rfl, rfl, rfl, rfl, rfl, rfl, rfl, rfl, id, id⟩, rfl, rfl⟩

theorem passEnd_quiet : Preserves Quiet (modify fun s => { s with pastTimeFilterEnd := true } : ReaderM Unit) :=
  Preserves.modify fun _ => ⟨⟨rfl, rfl, rfl, rfl, rfl, rfl, rfl, rfl, id, fun _ => rfl⟩, rfl, rfl⟩

namespace FrameReader

variable (r : FrameReader)

theorem leaveWindow_quiet : Preserves Quiet leaveWindow := countFiltered_quiet.bind fun _ => passEnd_quiet

theorem recordDroppedFrame_quiet (lsn : ℕ) (p : PendingFrame) (reason : String) : Preserves Quiet (r.recordDroppedFrame lsn p reason) := by
  refine countStats_quiet fun _ => ⟨⟨rfl, rfl, rfl, rfl, rfl, rfl, rfl, rfl, ?_, id⟩, rfl, rfl⟩
  intro h
  rw [List.length_append, h]
  rfl

theorem observeTimecodeForFilterEnd_quiet (timecode : Timecode) : Preserves Quiet (r.observeTimecodeForFilterEnd timecode) := by
  unfold observeTimecodeForFilterEnd
  split
  · exact Preserves.ite (fun _ => passEnd_quiet) fun _ => Preserves.pure _
  · exact Preserves.pure _

theorem pendingFrameOutsideTimeFilter_quiet (p : PendingFrame) : Preserves Quiet (r.pendingFrameOutsideTimeFilter p) := by
  unfold pendingFrameOutsideTimeFilter
  split
  · exact Preserves.pure _
  · exact (r.observeTimecodeForFilterEnd_quiet _).bind fun _ => Preserves.pure _

theorem handleIncompleteFrame_quiet (lsn : ℕ) (p : PendingFrame) (reason : String) : Preserves Quiet (r.handleIncompleteFrame lsn p reason) := by
  unfold handleIncompleteFrame
  refine Preserves.get_bind fun s => Preserves.ite (fun _ => leaveWindow_quiet) fun _ => ?_
  refine (r.pendingFrameOutsideTimeFilter_quiet p).bind fun outside => Preserves.get_bind fun s => ?_
  refine Preserves.ite (fun _ => leaveWindow_quiet) fun _ => Preserves.ite (fun _ => leaveWindow_quiet) fun _ => ?_
  refine (r.recordDroppedFrame_quiet lsn p reason).bind fun _ => ?_
  exact Preserves.ite (fun _ => Preserves.pure _) fun _ => Preserves.throw _

theorem checkTimecode_quiet (lsn : ℕ) (info : AudioFrameInfo) : Preserves Quiet (r.checkTimecode lsn info) := by
  unfold checkTimecode
  refine Preserves.ite (fun _ => ?_) fun _ => Preserves.pure _
  refine (countStats_quiet fun _ => ⟨⟨rfl, rfl, rfl, rfl, rfl, rfl, rfl, rfl, id, id⟩, rfl, rfl⟩).bind fun _ => ?_
  exact Preserves.ite (fun _ => Preserves.pure _) fun _ => Preserves.throw _

theorem checkChannelCount_quiet (lsn : ℕ) (dstEncoded : Bool) (info : AudioFrameInfo) :
    Preserves Quiet (r.checkChannelCount lsn dstEncoded info) := by
  unfold checkChannelCount
  refine Preserves.ite (fun _ => ?_) fun _ => Preserves.pure _
  split
  · refine Preserves.ite (fun _ => ?_) fun _ => Preserves.pure _
    refine (countStats_quiet fun _ => ⟨⟨rfl, rfl, rfl, rfl, rfl, rfl, rfl, rfl, id, id⟩, rfl, rfl⟩).bind fun _ => ?_
    exact Preserves.ite (fun _ => Preserves.throw _) fun _ => Preserves.pure _
  · exact Preserves.pure _

theorem canSkipMalformedPacket_quiet (infos : List AudioFrameInfo) : Preserves Quiet (r.canSkipMalformedPacketAfterTimeWindow infos) := by
  unfold canSkipMalformedPacketAfterTimeWindow
  refine Preserves.get_bind fun s => Preserves.ite (fun _ => Preserves.pure _) fun _ => ?_
  split
  · exact Preserves.ite (fun _ => passEnd_quiet.bind fun _ => Preserves.pure _) fun _ => Preserves.pure _
  · exact Preserves.pure _

/-! ## What a packet does to the frames -/

/-- A frame that is queued: it is whole and in the window, and the window's end has not been passed. -/
structure Deliverable (s : Reading) (p : PendingFrame) : Prop where
  complete : r.frameIsComplete p = true
  selected : r.frameSelected s p = true

/-- The frame was queued, or there is nothing to see of it. -/
structure Finished (s : Reading) (p : PendingFrame) (t : Reading) : Prop where
  kept : Kept s t
  pending : t.pending = s.pending
  ready : t.ready = s.ready ∨ t.ready = s.ready ++ [p] ∧ r.Deliverable s p

theorem finishOrDrop_spec (lsn : ℕ) (p : PendingFrame) (reason : String) (s : Reading) :
    Leaves (fun _ t => Kept s t) (fun _ t => r.Finished s p t) (r.finishOrDrop lsn p reason) s := by
  unfold finishOrDrop
  refine Leaves.ite (fun _ => ?_) fun hcomplete => Leaves.get_bind (Leaves.ite (fun hselected => Leaves.modify ?_) fun _ => ?_)
  · refine (r.handleIncompleteFrame_quiet lsn p reason s).mono (fun _ t h => h.toKept) fun _ t h => ?_
    exact ⟨h.toKept, h.pending, Or.inl h.ready⟩
  · refine ⟨⟨rfl, rfl, rfl, rfl, rfl, rfl, rfl, rfl, id, id⟩, rfl, Or.inr ⟨rfl, ?_, hselected⟩⟩
    rwa [Bool.not_eq_true', Bool.not_eq_false] at hcomplete
  · refine (countFiltered_quiet s).mono (fun _ t h => h.toKept) fun _ t h => ?_
    exact ⟨h.toKept, h.pending, Or.inl h.ready⟩

/-- The frame in progress has been finished, if there was one. -/
structure Closed (s t : Reading) : Prop where
  kept : Kept s t
  pending : t.pending = none
  ready : t.ready = s.ready ∨ ∃ p, s.pending = some p ∧ t.ready = s.ready ++ [p] ∧ r.Deliverable s p

theorem closePending_spec (lsn : ℕ) (s : Reading) : Leaves (fun _ t => Kept s t) (fun _ t => r.Closed s t) (r.closePending lsn) s := by
  unfold closePending
  refine Leaves.get_bind ?_
  split
  · rename_i hnone
    exact Leaves.pure ⟨refl_of Kept s, hnone, Or.inl rfl⟩
  · rename_i p hsome
    have htaken : Kept s { s with pending := none } := kept_setFrames s none s.ready
    refine Leaves.modify_bind ((r.finishOrDrop_spec lsn p _ _).mono ?_ ?_)
    · intro e t h
      exact trans_of Kept htaken h
    · rintro _ t ⟨hkept, hpending, hready⟩
      refine ⟨trans_of Kept htaken hkept, hpending, ?_⟩
      rcases hready with hready | ⟨hready, hdeliverable⟩
      · exact Or.inl hready
      · exact Or.inr ⟨p, hsome, hready, hdeliverable.complete, hdeliverable.selected⟩

/-- A frame was opened in the window, or there is nothing to see of it. -/
structure Started (s : Reading) (dstEncoded : Bool) (info : AudioFrameInfo) (wanted : Bool) (t : Reading) : Prop where
  kept : Kept s t
  ready : t.ready = s.ready
  pending : t.pending = if wanted then some (r.opened dstEncoded info) else s.pending

theorem startFrame_spec (lsn : ℕ) (dstEncoded : Bool) (info : AudioFrameInfo) (s : Reading) :
    Leaves (fun _ t => Kept s t) (fun wanted t => r.Started s dstEncoded info wanted t) (r.startFrame lsn dstEncoded info) s := by
  unfold startFrame
  refine Leaves.get_bind (Leaves.bind_preserves (r.observeTimecodeForFilterEnd_quiet _) (fun _ t h => h.toKept) fun _ t hobserved => ?_)
  have hskip : Leaves (fun _ u => Kept s u) (fun wanted u => r.Started s dstEncoded info wanted u)
      (countFiltered >>= fun _ => pure false) t := by
    refine Leaves.bind_preserves countFiltered_quiet (fun _ u h => trans_of Kept hobserved.toKept h.toKept) fun _ u h => Leaves.pure ?_
    exact ⟨trans_of Kept hobserved.toKept h.toKept, h.ready.trans hobserved.ready, h.pending.trans hobserved.pending⟩
  refine Leaves.ite (fun _ => hskip) fun _ => Leaves.get_bind (Leaves.ite (fun _ => hskip) fun _ => ?_)
  refine Leaves.bind_preserves (r.checkTimecode_quiet lsn info) (fun _ u h => trans_of Kept hobserved.toKept h.toKept)
    fun _ u hchecked => ?_
  have hquiet : Quiet s u := trans_of Quiet hobserved hchecked
  refine Leaves.bind_preserves (r.checkChannelCount_quiet lsn dstEncoded info) (fun _ v h => trans_of Kept hquiet.toKept h.toKept)
    fun _ v h => Leaves.modify_bind (Leaves.pure ?_)
  have hv : Quiet s v := trans_of Quiet hquiet h
  exact ⟨trans_of Kept hv.toKept (kept_setFrames v _ _), hv.ready, rfl⟩

/-- How many frame infos have been used after a frame start. -/
def infoAfter (infos : List AudioFrameInfo) (idx : ℕ) : ℕ := if idx < infos.length then idx + 1 else idx

/-- What `prepare_audio_packet` does: nothing for a packet that goes on, and for a frame start it closes the frame in progress and opens the
next, unless that one is outside the window. -/
inductive Prepared (dstEncoded : Bool) (packet : AudioPacketInfo) (infos : List AudioFrameInfo) (idx : ℕ) (s : Reading) :
    Bool × ℕ → Reading → Prop
  | continued (hstart : packet.frameStart = false) : Prepared dstEncoded packet infos idx s (s.pending.isSome, idx) s
  | skipped {t : Reading} (hstart : packet.frameStart = true) (closed : r.Closed s t) :
      Prepared dstEncoded packet infos idx s (false, infoAfter infos idx) t
  | started {t u : Reading} {info : AudioFrameInfo} (hstart : packet.frameStart = true) (closed : r.Closed s t)
      (hinfo : infos[idx]? = some info) (kept : Kept t u) (ready : u.ready = t.ready) (pending : u.pending = some (r.opened dstEncoded info)) :
      Prepared dstEncoded packet infos idx s (true, infoAfter infos idx) u

variable {r} in
theorem Closed.trans_quiet {s t u : Reading} (h : r.Closed s t) (hkept : Kept t u) (hpending : u.pending = t.pending)
    (hready : u.ready = t.ready) : r.Closed s u := by
  refine ⟨trans_of Kept h.kept hkept, hpending.trans h.pending, ?_⟩
  rw [hready]
  exact h.ready

theorem prepareAudioPacket_spec (lsn : ℕ) (dstEncoded : Bool) (packet : AudioPacketInfo) (infos : List AudioFrameInfo) (idx : ℕ) (s : Reading) :
    Leaves (fun _ t => Kept s t) (fun result t => Kept s t ∧ r.Prepared dstEncoded packet infos idx s result t)
      (r.prepareAudioPacket lsn dstEncoded packet infos idx) s := by
  unfold prepareAudioPacket
  refine Leaves.ite (fun hstart => Leaves.get_bind (Leaves.pure ?_)) fun hstart => (r.closePending_spec lsn s).bind fun _ t hclosed => ?_
  · rw [Bool.not_eq_true'] at hstart
    exact ⟨refl_of Kept s, .continued hstart⟩
  rw [Bool.not_eq_true', Bool.not_eq_false] at hstart
  split
  · rename_i hnone
    have hidx : infoAfter infos idx = idx := by
      rw [List.getElem?_eq_none_iff] at hnone
      exact if_neg (by omega)
    refine Leaves.get_bind (Leaves.ite (fun _ => ?_) fun _ => Leaves.throw hclosed.kept)
    refine Leaves.bind_preserves countFiltered_quiet (fun _ u h => trans_of Kept hclosed.kept h.toKept) fun _ u h => Leaves.pure ?_
    have hskipped : r.Prepared dstEncoded packet infos idx s (false, infoAfter infos idx) u :=
      .skipped hstart (hclosed.trans_quiet h.toKept h.pending h.ready)
    rw [hidx] at hskipped
    exact ⟨trans_of Kept hclosed.kept h.toKept, hskipped⟩
  · rename_i info hinfo
    have hidx : infoAfter infos idx = idx + 1 := if_pos (List.getElem?_eq_some_iff.1 hinfo).1
    refine ((r.startFrame_spec lsn dstEncoded info t).mono (fun _ u h => trans_of Kept hclosed.kept h) fun _ _ h => h).bind
      fun wanted u hstarted => Leaves.pure ⟨trans_of Kept hclosed.kept hstarted.kept, ?_⟩
    rw [← hidx]
    cases wanted with
    | false => exact .skipped hstart (hclosed.trans_quiet hstarted.kept hstarted.pending hstarted.ready)
    | true => exact .started hstart hclosed hinfo hstarted.kept hstarted.ready hstarted.pending

/-- The frame in progress has one payload more; when that makes it whole it was finished. -/
structure Appended (s : Reading) (p : PendingFrame) (t : Reading) : Prop where
  kept : Kept s t
  frames : t.pending = some p ∧ t.ready = s.ready ∨
    t.pending = none ∧ (t.ready = s.ready ∨ t.ready = s.ready ++ [p] ∧ r.Deliverable s p)

theorem appendAudioPacketPayload_spec (lsn : ℕ) (packetData : List UInt8) {s : Reading} {p : PendingFrame} (hpending : s.pending = some p) :
    Leaves (fun _ t => Kept s t) (fun _ t => r.Appended s (extended p packetData) t) (r.appendAudioPacketPayload lsn packetData) s := by
  have htaken : Kept s { s with pending := none } := kept_setFrames s none s.ready
  unfold appendAudioPacketPayload
  refine Leaves.get_bind ?_
  rw [hpending]
  refine Leaves.ite (fun _ => Leaves.modify_bind ?_) fun _ => Leaves.ite (fun _ => Leaves.modify_bind ?_) fun _ => Leaves.modify ?_
  · exact Leaves.bind_preserves (r.recordDroppedFrame_quiet lsn p _) (fun _ t h => trans_of Kept htaken h.toKept)
      fun _ t h => Leaves.throw (trans_of Kept htaken h.toKept)
  · refine (r.finishOrDrop_spec lsn _ _ _).mono (fun _ t h => trans_of Kept htaken h) ?_
    rintro _ t ⟨hkept, hnone, hready⟩
    refine ⟨trans_of Kept htaken hkept, Or.inr ⟨hnone, ?_⟩⟩
    rcases hready with hready | ⟨hready, hdeliverable⟩
    · exact Or.inl hready
    · exact Or.inr ⟨hready, hdeliverable.complete, hdeliverable.selected⟩
  · exact ⟨kept_setFrames s _ s.ready, Or.inl ⟨rfl, rfl⟩⟩

/-- What an audio packet does, and the payload it was read with. -/
inductive Took (parsed : ParsedSector) (packet : AudioPacketInfo) (idx : ℕ) (payload : Except FrameError (List UInt8)) (s : Reading) :
    Reading → Prop
  | ignored (hstart : packet.frameStart = false) (hnone : s.pending = none) : Took parsed packet idx payload s s
  | closed {t : Reading} (hstart : packet.frameStart = true) (closed : r.Closed s t) : Took parsed packet idx payload s t
  | extended {t : Reading} {p : PendingFrame} {bytes : List UInt8} (hstart : packet.frameStart = false) (hsome : s.pending = some p)
      (hread : payload = .ok bytes) (appended : r.Appended s (extended p bytes) t) : Took parsed packet idx payload s t
  | opened {t u v : Reading} {info : AudioFrameInfo} {bytes : List UInt8} (hstart : packet.frameStart = true) (closed : r.Closed s t)
      (hinfo : parsed.frameInfos[idx]? = some info) (kept : Kept t u) (ready : u.ready = t.ready) (hread : payload = .ok bytes)
      (appended : r.Appended u (FrameReader.extended (r.opened parsed.dstEncoded info) bytes) v) : Took parsed packet idx payload s v

/-- The frame infos used after an audio packet. -/
def infoAfterPacket (parsed : ParsedSector) (packet : AudioPacketInfo) (idx : ℕ) : ℕ :=
  if packet.frameStart then infoAfter parsed.frameInfos idx else idx

theorem audioPacket_spec (lsn : ℕ) (sector : List UInt8) (parsed : ParsedSector) (packet : AudioPacketInfo) (offset idx : ℕ) (s : Reading) :
    Leaves (fun _ t => Kept s t)
      (fun idx' t => Kept s t ∧ idx' = infoAfterPacket parsed packet idx ∧
        r.Took parsed packet idx (readPacketPayload r.iso r.endLsn lsn sector offset packet.packetLength) s t)
      (r.audioPacket lsn sector parsed packet offset idx) s := by
  unfold audioPacket
  refine (r.prepareAudioPacket_spec lsn parsed.dstEncoded packet parsed.frameInfos idx s).bind ?_
  rintro ⟨wanted, idx'⟩ t ⟨hkept, hprepared⟩
  refine Leaves.ite (fun hwanted => ?_) fun hwanted => Leaves.pure ⟨hkept, ?_⟩
  · refine Leaves.ofExcept_bind (fun bytes hread => ?_) fun _ _ => hkept
    cases hprepared with
    | continued hstart =>
      obtain ⟨p, hsome⟩ := Option.isSome_iff_exists.1 hwanted
      refine ((r.appendAudioPacketPayload_spec lsn bytes hsome).mono (fun _ _ h => h) fun _ _ h => h).bind fun _ u happended => Leaves.pure ?_
      refine ⟨happended.kept, ?_, .extended hstart hsome hread happended⟩
      rw [infoAfterPacket, hstart, if_neg Bool.false_ne_true]
    | skipped => exact absurd hwanted Bool.false_ne_true
    | started hstart hclosed hinfo hopened hready hpending =>
      refine ((r.appendAudioPacketPayload_spec lsn bytes hpending).mono (fun _ _ h => trans_of Kept hkept h) fun _ _ h => h).bind
        fun _ u happended => Leaves.pure ?_
      refine ⟨trans_of Kept hkept happended.kept, ?_, .opened hstart hclosed hinfo hopened hready hread happended⟩
      rw [infoAfterPacket, hstart, if_pos rfl]
  · cases hprepared with
    | continued hstart =>
      refine ⟨?_, .ignored hstart (Option.not_isSome_iff_eq_none.1 hwanted)⟩
      rw [infoAfterPacket, hstart, if_neg Bool.false_ne_true]
    | skipped hstart hclosed =>
      refine ⟨?_, .closed hstart hclosed⟩
      rw [infoAfterPacket, hstart, if_pos rfl]
    | started => exact absurd rfl hwanted

theorem audioPacket_kept (lsn : ℕ) (sector : List UInt8) (parsed : ParsedSector) (packet : AudioPacketInfo) (offset idx : ℕ) :
    Preserves Kept (r.audioPacket lsn sector parsed packet offset idx) :=
  fun s => (r.audioPacket_spec lsn sector parsed packet offset idx s).mono (fun _ _ h => h) fun _ _ h => h.1

theorem ofExcept_kept {α : Type} (x : Except FrameError α) : Preserves Kept (MonadExcept.ofExcept x : ReaderM α) := by
  cases x with
  | ok a => exact Preserves.pure a
  | error e => exact Preserves.throw e

theorem processPackets_kept (lsn : ℕ) (sector : List UInt8) (parsed : ParsedSector) (packets : List AudioPacketInfo) (offset idx : ℕ) :
    Preserves Kept (r.processPackets lsn sector parsed packets offset idx) := by
  induction packets generalizing offset idx with
  | nil => exact Preserves.pure _
  | cons packet packets ih =>
    unfold processPackets
    refine Preserves.ite (fun _ => ?_) fun _ => (ofExcept_kept _).bind fun packetEnd => ?_
    · refine ((r.canSkipMalformedPacket_quiet _).mono fun _ _ h => h.toKept).bind fun skip => ?_
      exact Preserves.ite (fun _ => countFiltered_quiet.mono fun _ _ h => h.toKept) fun _ => Preserves.throw _
    · exact Preserves.ite (fun _ => (r.audioPacket_kept lsn sector parsed packet offset idx).bind fun _ => ih _ _) fun _ => ih _ _

theorem processSectorBytes_kept (lsn : ℕ) (sector : List UInt8) : Preserves Kept (r.processSectorBytes lsn sector) :=
  (ofExcept_kept _).bind fun parsed => r.processPackets_kept lsn sector parsed _ _ _

/-! ## Sectors that are skipped -/

/-- What recovery does about the sector `lsn`: an event, and no frame is in progress or queued. -/
structure Skipped (lsn malformed io : ℕ) (s t : Reading) : Prop where
  curLsn : t.curLsn = s.curLsn
  framesEmitted : t.stats.framesEmitted = s.stats.framesEmitted
  bytesEmitted : t.stats.bytesEmitted = s.stats.bytesEmitted
  sectorsRead : t.stats.sectorsRead = s.stats.sectorsRead
  sectorsSkipped : t.stats.sectorsSkipped = s.stats.sectorsSkipped + 1
  malformedSectors : t.stats.malformedSectors = s.stats.malformedSectors + malformed
  ioErrors : t.stats.ioErrors = s.stats.ioErrors + io
  recoveryEvents : ∃ kind error, t.stats.recoveryEvents = s.stats.recoveryEvents ++ [⟨lsn, kind, error⟩]
  dropped : s.stats.droppedFrameEvents.length = s.stats.framesDroppedIncomplete →
    t.stats.droppedFrameEvents.length = t.stats.framesDroppedIncomplete
  pending : t.pending = none
  ready : t.ready = []

theorem dropPending_spec (s : Reading) :
    Leaves (fun _ _ => False) (fun _ t => Kept s t ∧ t.pending = none) (r.dropPending s) s := by
  unfold dropPending
  split
  · refine Leaves.modify_bind (Leaves.modify ?_)
    refine ⟨⟨rfl, rfl, rfl, rfl, rfl, rfl, rfl, rfl, ?_, id⟩, rfl⟩
    intro h
    rw [List.length_append, h]
    rfl
  · rename_i hnone
    exact Leaves.pure ⟨refl_of Kept s, hnone⟩

theorem discardRecoveryState_spec (s : Reading) :
    Leaves (fun _ _ => False) (fun _ t => Kept s t ∧ t.pending = none ∧ t.ready = []) (r.discardRecoveryState s) s := by
  refine (r.dropPending_spec s).bind fun _ t ⟨hkept, hnone⟩ => Leaves.modify ?_
  exact ⟨trans_of Kept hkept (kept_setFrames t t.pending []), hnone, rfl⟩

theorem skipSector_spec (lsn : ℕ) (kind : RecoveryEventKind) (error : String) (s : Reading) :
    Leaves (fun _ _ => False) (fun _ t => Skipped lsn 0 0 s t) (r.skipSector lsn kind error) s := by
  unfold skipSector countStats
  refine Leaves.modify_bind (Leaves.get_bind ((r.discardRecoveryState_spec _).mono (fun _ _ h => h) ?_))
  rintro _ t ⟨hkept, hnone, hready⟩
  exact
    { curLsn := hkept.curLsn
      framesEmitted := hkept.framesEmitted
      bytesEmitted := hkept.bytesEmitted
      sectorsRead := hkept.sectorsRead
      sectorsSkipped := hkept.sectorsSkipped
      malformedSectors := hkept.malformedSectors
      ioErrors := hkept.ioErrors
      recoveryEvents := ⟨kind, error, hkept.recoveryEvents⟩
      dropped := hkept.dropped
      pending := hnone
      ready := hready }

theorem countFormatMismatch_spec (err : FrameError) (s : Reading) :
    Leaves (fun _ _ => False) (fun _ t => Quiet s t) (countFormatMismatch err) s := by
  unfold countFormatMismatch
  split
  · exact Leaves.modify ⟨⟨rfl, rfl, rfl, rfl, rfl, rfl, rfl, rfl, id, id⟩, rfl, rfl⟩
  · exact Leaves.pure (refl_of Quiet s)

/-- The reader stops at the first error. -/
def Strict : Prop := r.recoverSectorErrors = false

theorem strict_of_not (h : ¬ r.recoverSectorErrors = true) : r.Strict := by
  rwa [Bool.not_eq_true] at h

theorem recoverFrom_spec (lsn : ℕ) (err : FrameError) (s : Reading) :
    Leaves (fun _ _ => r.Strict) (fun _ t => Skipped lsn 1 0 s t) (r.recoverFrom lsn err) s := by
  unfold recoverFrom
  refine Leaves.ite (fun _ => ?_) fun hstrict => Leaves.throw (r.strict_of_not hstrict)
  refine ((countFormatMismatch_spec err s).mono (fun _ _ h => h.elim) fun _ _ h => h).bind fun _ t hquiet => ?_
  refine Leaves.modify_bind ((r.skipSector_spec lsn _ _ _).mono (fun _ _ h => h.elim) fun _ u h => ?_)
  exact
    { curLsn := h.curLsn.trans hquiet.curLsn
      framesEmitted := h.framesEmitted.trans hquiet.framesEmitted
      bytesEmitted := h.bytesEmitted.trans hquiet.bytesEmitted
      sectorsRead := h.sectorsRead.trans hquiet.sectorsRead
      sectorsSkipped := h.sectorsSkipped.trans (congrArg (· + 1) hquiet.sectorsSkipped)
      malformedSectors := h.malformedSectors.trans (congrArg (· + 1) hquiet.malformedSectors)
      ioErrors := h.ioErrors.trans hquiet.ioErrors
      recoveryEvents := by
        rw [← hquiet.recoveryEvents]
        exact h.recoveryEvents
      dropped := fun hs => h.dropped (hquiet.dropped hs)
      pending := h.pending
      ready := h.ready }

/-! ## Any number of calls -/

/-- Calls that returned, and the frames they gave. -/
inductive Run : Reading → List Frame → Reading → Prop
  | nil (s : Reading) : Run s [] s
  | next {s t u : Reading} {fs : List Frame} {result : Option Frame} (run : Run s fs t) (call : r.nextFrame t = .ok result u) :
      Run s (fs ++ result.toList) u

/-- The counters of a reader that started at `start` and has returned the frames `fs`. -/
structure Books (start : ℕ) (fs : List Frame) (s : Reading) : Prop where
  emitted : s.stats.framesEmitted = fs.length
  bytes : s.stats.bytesEmitted = (fs.map fun f => f.data.length).sum
  dropped : s.stats.droppedFrameEvents.length = s.stats.framesDroppedIncomplete
  events : s.stats.recoveryEvents.length = s.stats.sectorsSkipped
  skipped : s.stats.sectorsSkipped = s.stats.malformedSectors + s.stats.ioErrors
  taken : start + s.stats.sectorsRead + s.stats.ioErrors = s.curLsn
  ordered : (s.stats.recoveryEvents.map RecoveryEvent.lsn).Pairwise (· < ·)
  within : ∀ e ∈ s.stats.recoveryEvents, start ≤ e.lsn ∧ e.lsn < s.curLsn

variable {r} {start lsn : ℕ} {fs : List Frame} {s t : Reading}

theorem Books.of_kept (h : Books start fs s) (hkept : Kept s t) : Books start fs t where
  emitted := hkept.framesEmitted.trans h.emitted
  bytes := hkept.bytesEmitted.trans h.bytes
  dropped := hkept.dropped h.dropped
  events := by rw [hkept.recoveryEvents, hkept.sectorsSkipped, h.events]
  skipped := by rw [hkept.sectorsSkipped, hkept.malformedSectors, hkept.ioErrors, h.skipped]
  taken := by rw [hkept.sectorsRead, hkept.ioErrors, hkept.curLsn, h.taken]
  ordered := by rw [hkept.recoveryEvents]; exact h.ordered
  within := by rw [hkept.recoveryEvents, hkept.curLsn]; exact h.within

/-- The place moves on, and so many sectors were read. -/
def tookSector (read : ℕ) (s : Reading) : Reading :=
  { s with curLsn := s.curLsn + 1, stats := { s.stats with sectorsRead := s.stats.sectorsRead + read } }

theorem Books.of_processed (h : Books start fs s) (hkept : Kept (tookSector 1 s) t) : Books start fs t where
  emitted := hkept.framesEmitted.trans h.emitted
  bytes := hkept.bytesEmitted.trans h.bytes
  dropped := hkept.dropped h.dropped
  events := by
    rw [hkept.recoveryEvents, hkept.sectorsSkipped]
    exact h.events
  skipped := by
    rw [hkept.sectorsSkipped, hkept.malformedSectors, hkept.ioErrors]
    exact h.skipped
  taken := by
    have htaken := h.taken
    rw [hkept.sectorsRead, hkept.ioErrors, hkept.curLsn]
    dsimp only [tookSector]
    omega
  ordered := by
    rw [hkept.recoveryEvents]
    exact h.ordered
  within := by
    rw [hkept.recoveryEvents, hkept.curLsn]
    intro e he
    obtain ⟨hstart, hlt⟩ := h.within e he
    exact ⟨hstart, Nat.lt_succ_of_lt hlt⟩

/-- A sector that is skipped was read or was not: one or the other is counted. -/
theorem Books.of_skipped {malformed io : ℕ} {u : Reading} (h : Books start fs s) (hcount : malformed + io = 1)
    (hkept : Kept (tookSector malformed s) t) (hskipped : Skipped s.curLsn malformed io t u) : Books start fs u := by
  obtain ⟨kind, error, hevents⟩ := hskipped.recoveryEvents
  rw [hkept.recoveryEvents] at hevents
  have hsectors := hskipped.sectorsSkipped.trans (congrArg (· + 1) hkept.sectorsSkipped)
  have hmalformed := hskipped.malformedSectors.trans (congrArg (· + malformed) hkept.malformedSectors)
  have hio := hskipped.ioErrors.trans (congrArg (· + io) hkept.ioErrors)
  have hread := hskipped.sectorsRead.trans hkept.sectorsRead
  have hplace := hskipped.curLsn.trans hkept.curLsn
  have hcounted := h.skipped
  have htaken := h.taken
  have hlength := h.events
  dsimp only [tookSector] at hevents hsectors hmalformed hio hread hplace
  constructor
  · exact (hskipped.framesEmitted.trans hkept.framesEmitted).trans h.emitted
  · exact (hskipped.bytesEmitted.trans hkept.bytesEmitted).trans h.bytes
  · exact hskipped.dropped (hkept.dropped h.dropped)
  · rw [hevents, List.length_append, hlength, hsectors, List.length_singleton]
  · rw [hsectors, hmalformed, hio]
    omega
  · rw [hread, hio, hplace]
    omega
  · rw [hevents, List.map_append, List.pairwise_append]
    refine ⟨h.ordered, List.pairwise_singleton _ _, ?_⟩
    intro lsn hlsn lsn' hlsn'
    obtain ⟨e, he, rfl⟩ := List.mem_map.1 hlsn
    rw [List.mem_singleton.1 hlsn']
    exact (h.within e he).2
  · rw [hevents, hplace]
    intro e he
    rcases List.mem_append.1 he with he | he
    · obtain ⟨hstart, hlt⟩ := h.within e he
      exact ⟨hstart, Nat.lt_succ_of_lt hlt⟩
    · rw [List.mem_singleton.1 he]
      dsimp only
      exact ⟨by omega, Nat.lt_succ_self _⟩

variable (r) in
theorem nextSector_books (h : Books start fs s) : Leaves (fun _ _ => r.Strict) (fun _ t => Books start fs t) r.nextSector s := by
  unfold nextSector
  refine Leaves.get_bind (Leaves.modify_bind ?_)
  split
  · rename_i sector _
    refine Leaves.modify_bind (Leaves.tryCatch (E := fun _ t => Kept (tookSector 1 s) t) ?_ ?_)
    · exact (r.processSectorBytes_kept s.curLsn sector (tookSector 1 s)).mono (fun _ _ h => h) fun _ _ hkept => h.of_processed hkept
    · intro e t hkept
      exact (r.recoverFrom_spec s.curLsn e t).mono (fun _ _ h => h) fun _ u hskipped => h.of_skipped rfl hkept hskipped
  · refine Leaves.ite (fun _ => Leaves.modify_bind ?_) fun hstrict => Leaves.throw (r.strict_of_not hstrict)
    refine (r.skipSector_spec s.curLsn _ _ _).mono (fun _ _ h => h.elim) fun _ u hskipped => ?_
    have htook : Skipped s.curLsn 0 1 (tookSector 0 s) u :=
      ⟨hskipped.1, hskipped.2, hskipped.3, hskipped.4, hskipped.5, hskipped.6, hskipped.7, hskipped.8, hskipped.9, hskipped.10, hskipped.11⟩
    exact h.of_skipped rfl (refl_of Kept _) htook

/-- What holds of a call's result and of the state it leaves. -/
abbrev ReturnsBooks (start : ℕ) (fs : List Frame) (p : ReaderM (Option Frame)) (s : Reading) : Prop :=
  Leaves (fun _ _ => r.Strict) (fun result t => Books start (fs ++ result.toList) t) p s

/-- A frame that is given out is counted with its bytes. -/
theorem Books.emit (h : Books start fs s) (frame : Frame) : r.ReturnsBooks start fs (emit frame) s := by
  refine Leaves.modify_bind (Leaves.pure ?_)
  have hemitted := h.emitted
  have hbytes := h.bytes
  refine ⟨?_, ?_, h.dropped, h.events, h.skipped, h.taken, h.ordered, h.within⟩
  · rw [Option.toList_some, List.length_append, List.length_singleton, ← hemitted]
  · rw [Option.toList_some, List.map_append, List.sum_append, ← hbytes]
    rfl

theorem Books.none (h : Books start fs s) : r.ReturnsBooks start fs (pure Option.none) s := by
  refine Leaves.pure ?_
  rw [Option.toList_none, List.append_nil]
  exact h

theorem Books.readyOr {rest : ReaderM (Option Frame)} (h : Books start fs s) (hrest : r.ReturnsBooks start fs rest s) :
    r.ReturnsBooks start fs (readyOr rest) s := by
  unfold FrameReader.readyOr
  refine Leaves.get_bind ?_
  split
  · exact Leaves.modify_bind ((h.of_kept (kept_setFrames s s.pending _)).emit _)
  · exact hrest

variable (r) in
theorem flush_books (h : Books start fs s) : r.ReturnsBooks start fs r.flush s := by
  unfold flush
  refine Leaves.get_bind ?_
  split
  · exact h.none
  · have htaken := h.of_kept (kept_setFrames s Option.none s.ready)
    refine Leaves.modify_bind (Leaves.ite (fun _ => htaken.none) fun _ => Leaves.ite (fun _ => htaken.emit _) fun _ => ?_)
    refine Leaves.modify_bind (Books.none (htaken.of_kept ?_))
    exact ⟨rfl, rfl, rfl, rfl, rfl, rfl, rfl, rfl, id, id⟩

variable (r) in
theorem nextFrameFrom_books (sectors : ℕ) (h : Books start fs s) : r.ReturnsBooks start fs (r.nextFrameFrom sectors) s := by
  induction sectors generalizing s with
  | zero => exact h.readyOr (r.flush_books h)
  | succ sectors ih => exact h.readyOr ((r.nextSector_books h).bind fun _ _ ht => ih ht)

theorem books_new (start : ℕ) : Books start [] (Reading.new start) := by
  refine ⟨rfl, rfl, rfl, rfl, rfl, rfl, List.Pairwise.nil, ?_⟩
  intro e he
  cases he

variable (r) in
theorem nextFrame_books (h : Books start fs s) : r.ReturnsBooks start fs r.nextFrame s := r.nextFrameFrom_books (r.endLsn - s.curLsn) h

/-- **The counters agree with what happened, over any image and after any number of calls, and a reader that recovers never fails.** -/
theorem run_books (hrun : r.Run (Reading.new start) fs t) :
    Books start fs t ∧ (r.recoverSectorErrors = true → ∃ result u, r.nextFrame t = .ok result u) := by
  have hbooks : Books start fs t := by
    induction hrun with
    | nil => exact books_new start
    | next run call ih =>
      have hcall := r.nextFrame_books ih
      unfold ReturnsBooks at hcall
      exact hcall.of_ok call
  refine ⟨hbooks, fun hrecover => ?_⟩
  have hcall := r.nextFrame_books hbooks
  unfold ReturnsBooks at hcall
  cases hresult : r.nextFrame t with
  | ok result u => exact ⟨result, u, rfl⟩
  | error e u =>
    have hstrict : r.Strict := hcall.of_error hresult
    exact absurd (hstrict.symm.trans hrecover) Bool.false_ne_true

/-- An image of one sector. -/
def sectorReader (sector : List UInt8) : FrameReader where
  iso lsn := if lsn = 0 then .ok sector else .error "failed to fill whole buffer"
  endLsn := 1
  expectedChannelCount := none
  expectedFrameFormat := some .dst
  strictChannelCount := false
  timeFilter := some ⟨0, 75⟩
  recoverSectorErrors := true

def oneFrame : Frame := ⟨[0xab], ⟨0, 0, 0⟩, 2, true, 0⟩

def oneFrameTables : ParsedSector := ⟨true, [⟨true, 2, 1⟩], [⟨⟨0, 0, 0⟩, 1, 0⟩], 7⟩

theorem sectorReader_run {sector : List UInt8} (htables : parseSectorHeader sector 0 (some .dst) = .ok oneFrameTables)
    (hpayload : readPacketPayload (sectorReader sector).iso 1 0 sector 7 1 = .ok [0xab]) :
    ∃ t, (sectorReader sector).Run (Reading.new 0) [oneFrame] t := by
  have hsector : (sectorReader sector).processSectorBytes 0 sector (tookSector 1 (Reading.new 0)) =
      .ok () { tookSector 1 (Reading.new 0) with ready := [oneFrame] } := by
    have hpackets : (sectorReader sector).processPackets 0 sector oneFrameTables [⟨true, 2, 1⟩] 7 0 (tookSector 1 (Reading.new 0)) =
        .ok () { tookSector 1 (Reading.new 0) with ready := [oneFrame] } := by
      unfold processPackets audioPacket
      rw [show (sectorReader sector).endLsn = 1 from rfl]
      dsimp only
      rw [hpayload]
      rfl
    unfold processSectorBytes
    rw [show (sectorReader sector).expectedFrameFormat = some .dst from rfl, htables]
    exact hpackets
  have hnext : (sectorReader sector).nextSector (Reading.new 0) = .ok () { tookSector 1 (Reading.new 0) with ready := [oneFrame] } := by
    change EStateM.tryCatch ((sectorReader sector).processSectorBytes 0 sector) ((sectorReader sector).recoverFrom 0) (tookSector 1 (Reading.new 0)) = _
    unfold EStateM.tryCatch
    rw [hsector]
  have hcall : ∃ v, (sectorReader sector).nextFrame (Reading.new 0) = .ok (some oneFrame) v := by
    change ∃ v, EStateM.bind (sectorReader sector).nextSector (fun _ => (sectorReader sector).nextFrameFrom 0) (Reading.new 0) = .ok (some oneFrame) v
    unfold EStateM.bind
    rw [hnext]
    exact ⟨_, rfl⟩
  obtain ⟨v, hcall⟩ := hcall
  exact ⟨v, .next (.nil _) hcall⟩

def oneFrameSector : List UInt8 := [0x25, 0x90, 0x01, 0, 0, 0, 0x04, 0xab] ++ List.replicate 2040 0

theorem length_oneFrameSector : oneFrameSector.length = 2048 := by
  rw [oneFrameSector, List.length_append, List.length_replicate]
  rfl

theorem oneFrameSector_run : ∃ t, (sectorReader oneFrameSector).Run (Reading.new 0) [oneFrame] t := by
  apply sectorReader_run
  · unfold parseSectorHeader
    rw [length_oneFrameSector]
    rfl
  · unfold readPacketPayload readPacketPayloadFrom
    rw [length_oneFrameSector]
    rfl

theorem run_books_oneFrame : ∃ t, (sectorReader oneFrameSector).Run (Reading.new 0) [oneFrame] t ∧ Books 0 [oneFrame] t := by
  obtain ⟨t, hrun⟩ := oneFrameSector_run
  exact ⟨t, hrun, (run_books hrun).1⟩

end FrameReader
end Sacd
