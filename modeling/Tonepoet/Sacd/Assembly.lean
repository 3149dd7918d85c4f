import Mathlib.Data.Prod.Lex
import Tonepoet.Sacd.Bookkeeping

/-!
# Frames are never stitched (sacd-rs/frame.rs:523-1124)

A frame is what the audio packets from its frame start on hold, one after the other and without a gap. Over any image, with sectors that
cannot be read or make no sense in between, the frames that are returned are such frames, they share no packet, and they come in the
order of the disc.
-/

namespace Sacd

open Rust KeptState

/-! ## Places on the disc -/

/-- A packet of a sector, or the end of the sector's packets. -/
abbrev Place := ℕ ×ₗ ℕ

def place (lsn packet : ℕ) : Place := toLex (lsn, packet)

theorem place_le {lsn lsn' k k' : ℕ} : place lsn k ≤ place lsn' k' ↔ lsn < lsn' ∨ lsn = lsn' ∧ k ≤ k' := Prod.Lex.toLex_le_toLex

theorem place_succ (lsn k : ℕ) : place lsn k ≤ place lsn (k + 1) := place_le.2 (Or.inr ⟨rfl, Nat.le_succ k⟩)

theorem place_nextSector (lsn k : ℕ) : place lsn k ≤ place (lsn + 1) 0 := place_le.2 (Or.inl (Nat.lt_succ_self lsn))

namespace ParsedSector

variable (parsed : ParsedSector)

/-- Where the payload of a packet starts. -/
def payloadAt (k : ℕ) : ℕ := parsed.payloadOffset + ((parsed.packets.take k).map AudioPacketInfo.packetLength).sum

/-- How many frame infos the audio packets before a packet have used. -/
def infoAt (k : ℕ) : ℕ :=
  (parsed.packets.take k).foldl
    (fun idx packet => if packet.dataType = dataTypeAudio then FrameReader.infoAfterPacket parsed packet idx else idx) 0

variable {parsed} {k : ℕ} {packet : AudioPacketInfo}

theorem payloadAt_succ (h : parsed.packets[k]? = some packet) : parsed.payloadAt (k + 1) = parsed.payloadAt k + packet.packetLength := by
  unfold payloadAt
  rw [List.take_add_one, h, Option.toList_some, List.map_append, List.sum_append, List.map_singleton, List.sum_singleton, Nat.add_assoc]

theorem infoAt_succ (h : parsed.packets[k]? = some packet) : parsed.infoAt (k + 1) =
    if packet.dataType = dataTypeAudio then FrameReader.infoAfterPacket parsed packet (parsed.infoAt k) else parsed.infoAt k := by
  unfold infoAt
  rw [List.take_add_one, h, Option.toList_some, List.foldl_append, List.foldl_cons, List.foldl_nil]

end ParsedSector

namespace FrameReader

variable (r : FrameReader)

/-- The sector can be read, and its tables are these. -/
def Reads (lsn : ℕ) (sector : List UInt8) (parsed : ParsedSector) : Prop :=
  r.iso lsn = .ok sector ∧ parseSectorHeader sector lsn r.expectedFrameFormat = .ok parsed

/-- An audio packet, with the payload that starts in its sector. -/
structure AudioPacketAt (lsn k : ℕ) (parsed : ParsedSector) (packet : AudioPacketInfo) (payload : List UInt8) : Prop where
  listed : parsed.packets[k]? = some packet
  audio : packet.dataType = dataTypeAudio
  payload : ∃ sector, r.Reads lsn sector parsed ∧
    readPacketPayload r.iso r.endLsn lsn sector (parsed.payloadAt k) packet.packetLength = .ok payload

/-- What the packets from one place to another hold for the frame that starts at the first of them. -/
inductive Gathered : Place → PendingFrame → Place → Prop
  | start {lsn k : ℕ} {parsed : ParsedSector} {packet : AudioPacketInfo} {payload : List UInt8} {info : AudioFrameInfo}
      (audio : r.AudioPacketAt lsn k parsed packet payload) (starts : packet.frameStart = true)
      (informed : parsed.frameInfos[parsed.infoAt k]? = some info) :
      Gathered (place lsn k) (extended (r.opened parsed.dstEncoded info) payload) (place lsn (k + 1))
  | more {a : Place} {p : PendingFrame} {lsn k : ℕ} {parsed : ParsedSector} {packet : AudioPacketInfo} {payload : List UInt8}
      (before : Gathered a p (place lsn k)) (audio : r.AudioPacketAt lsn k parsed packet payload) (goesOn : packet.frameStart = false) :
      Gathered a (extended p payload) (place lsn (k + 1))
  | other {a : Place} {p : PendingFrame} {lsn k : ℕ} {sector : List UInt8} {parsed : ParsedSector} {packet : AudioPacketInfo}
      (before : Gathered a p (place lsn k)) (reads : r.Reads lsn sector parsed) (listed : parsed.packets[k]? = some packet)
      (other : packet.dataType ≠ dataTypeAudio) : Gathered a p (place lsn (k + 1))
  | nextSector {a : Place} {p : PendingFrame} {lsn : ℕ} {sector : List UInt8} {parsed : ParsedSector}
      (before : Gathered a p (place lsn parsed.packets.length)) (reads : r.Reads lsn sector parsed) : Gathered a p (place (lsn + 1) 0)

/-- A frame that may be returned. -/
structure Whole (p : PendingFrame) : Prop where
  complete : r.frameIsComplete p = true
  included : ∀ filter ∈ r.timeFilter, filter.includes p.timecode = true

/-- The frames were gathered one after the other, before a place. -/
inductive Placed : List Frame → Place → Prop
  | nil (x : Place) : Placed [] x
  | snoc {fs : List Frame} {f : Frame} {a b c x : Place} (before : Placed fs a) (later : a ≤ b) (gathered : Gathered r b f c) (whole : r.Whole f)
      (reached : c ≤ x) : Placed (fs ++ [f]) x

variable {r} {a b x y : Place} {p : PendingFrame} {fs gs : List Frame} {s t : Reading}

theorem Gathered.le (h : Gathered r a p x) : a ≤ x := by
  induction h with
  | start => exact place_succ _ _
  | more _ _ _ ih => exact ih.trans (place_succ _ _)
  | other _ _ _ _ ih => exact ih.trans (place_succ _ _)
  | nextSector _ _ ih => exact ih.trans (place_nextSector _ _)

theorem Placed.mono (h : Placed r fs x) (hxy : x ≤ y) : Placed r fs y := by
  cases h with
  | nil => exact .nil y
  | snoc before later gathered whole reached => exact .snoc before later gathered whole (reached.trans hxy)

theorem Placed.take (h : Placed r fs x) (n : ℕ) : Placed r (fs.take n) x := by
  induction h with
  | nil => rw [List.take_nil]; exact .nil _
  | @snoc fs f a b c x before later gathered whole reached ih =>
    rcases Nat.lt_or_ge n (fs.length + 1) with hlt | hge
    · rw [List.take_append_of_le_length (by omega)]
      exact ih.mono (later.trans (gathered.le.trans reached))
    · rw [List.take_of_length_le (by simpa using hge)]
      exact .snoc before later gathered whole reached

/-! ## The frames that a window has room for -/

variable (r) in
/-- As many frames as the window is long. -/
def windowed (fs : List Frame) : List Frame :=
  match r.timeFilter with
  | none => fs
  | some filter => fs.take filter.duration

variable (r) in
/-- There is room for another. -/
def InWindow (n : ℕ) : Prop := ∀ filter ∈ r.timeFilter, n < filter.duration

theorem windowed_eq (h : r.InWindow fs.length) : r.windowed fs = fs := by
  unfold windowed
  split
  · rfl
  · rename_i filter hfilter
    exact List.take_of_length_le (h filter hfilter).le

theorem windowed_append (h : ¬ r.InWindow fs.length) : r.windowed (fs ++ gs) = r.windowed fs := by
  unfold windowed
  split
  · rename_i hnone
    refine absurd (fun filter hfilter => ?_) h
    rw [hnone] at hfilter
    cases hfilter
  · rename_i filter hfilter
    refine List.take_append_of_le_length ?_
    by_contra hlt
    refine h fun filter' hfilter' => ?_
    obtain rfl := Option.some.inj (hfilter.symm.trans hfilter')
    omega

theorem windowed_snoc_of_inWindow (h : r.InWindow fs.length) (f : Frame) : r.windowed (fs ++ [f]) = fs ++ [f] := by
  unfold windowed
  split
  · rfl
  · rename_i filter hfilter
    refine List.take_of_length_le ?_
    rw [List.length_append, List.length_singleton]
    exact h filter hfilter

theorem Placed.windowed (h : Placed r fs x) : Placed r (r.windowed fs) x := by
  unfold FrameReader.windowed
  split
  · exact h
  · exact h.take _

/-! ## The invariant -/

/-- Of the frames given out and queued, those the window has room for are placed, and so is the frame in progress while there is room. -/
structure Invariant (r : FrameReader) (fs : List Frame) (s : Reading) (x : Place) : Prop where
  emitted : s.stats.framesEmitted = fs.length
  placed : Placed r (r.windowed (fs ++ s.ready)) x
  pending : ∀ p, s.pending = some p → s.pastTimeFilterEnd = false → r.InWindow (fs ++ s.ready).length →
    ∃ b, Placed r (fs ++ s.ready) b ∧ Gathered r b p x

theorem Deliverable.whole (h : r.Deliverable s p) : s.pastTimeFilterEnd = false ∧ r.Whole p := by
  have hselected := h.selected
  unfold frameSelected timecodeSelected at hselected
  split at hselected
  · cases hselected
  rename_i hpast
  refine ⟨by rwa [Bool.not_eq_true] at hpast, h.complete, ?_⟩
  intro filter hfilter
  rw [Option.mem_def] at hfilter
  rw [hfilter] at hselected
  exact hselected

/-- A queued frame is placed, if there is room for it. -/
theorem Placed.deliver (hplaced : Placed r (r.windowed fs) x) (hdeliverable : r.Deliverable s p)
    (hgathered : s.pastTimeFilterEnd = false → r.InWindow fs.length → ∃ b, Placed r fs b ∧ Gathered r b p x) :
    Placed r (r.windowed (fs ++ [p])) x := by
  obtain ⟨hpast, hwhole⟩ := hdeliverable.whole
  by_cases hroom : r.InWindow fs.length
  · obtain ⟨b, hbefore, hgathered⟩ := hgathered hpast hroom
    rw [windowed_snoc_of_inWindow hroom]
    exact .snoc hbefore le_rfl hgathered hwhole le_rfl
  · rw [windowed_append hroom]
    exact hplaced

/-- Closing the frame in progress keeps everything placed. -/
theorem Invariant.closed (h : Invariant r fs s x) (hclosed : r.Closed s t) : Placed r (r.windowed (fs ++ t.ready)) x := by
  rcases hclosed.ready with hready | ⟨p, hpending, hready, hdeliverable⟩
  · rw [hready]
    exact h.placed
  · rw [hready, ← List.append_assoc]
    exact h.placed.deliver hdeliverable (h.pending p hpending)

/-- One payload more for a frame that is gathered up to the next place. -/
theorem Invariant.appended (hemitted : s.stats.framesEmitted = fs.length) (hplaced : Placed r (r.windowed (fs ++ s.ready)) y)
    (hgathered : s.pastTimeFilterEnd = false → r.InWindow (fs ++ s.ready).length → ∃ b, Placed r (fs ++ s.ready) b ∧ Gathered r b p y)
    (happended : r.Appended s p t) : Invariant r fs t y := by
  have hemitted' := happended.kept.framesEmitted.trans hemitted
  rcases happended.frames with ⟨hpending, hready⟩ | ⟨hnone, hready⟩
  · refine ⟨hemitted', by rwa [hready], ?_⟩
    intro q hq hpast hroom
    obtain rfl := Option.some.inj (hpending.symm.trans hq)
    rw [hready] at hroom ⊢
    refine hgathered ?_ hroom
    by_contra hnot
    rw [Bool.not_eq_false] at hnot
    exact absurd ((happended.kept.past hnot).symm.trans hpast) (by decide)
  · have hvacuous : ∀ q, t.pending = some q → t.pastTimeFilterEnd = false → r.InWindow (fs ++ t.ready).length →
        ∃ b, Placed r (fs ++ t.ready) b ∧ Gathered r b q y := by
      intro q hq
      rw [hnone] at hq
      cases hq
    rcases hready with hready | ⟨hready, hdeliverable⟩
    · exact ⟨hemitted', by rwa [hready], hvacuous⟩
    · refine ⟨hemitted', ?_, hvacuous⟩
      rw [hready, ← List.append_assoc]
      exact hplaced.deliver hdeliverable hgathered

/-- Nothing is in progress. -/
theorem Invariant.idle (hemitted : t.stats.framesEmitted = fs.length) (hplaced : Placed r (r.windowed (fs ++ t.ready)) x)
    (hnone : t.pending = none) : Invariant r fs t x := by
  refine ⟨hemitted, hplaced, fun p hp => ?_⟩
  rw [hnone] at hp
  cases hp

/-! ## The packets of a sector -/

variable {lsn k idx : ℕ} {sector : List UInt8} {parsed : ParsedSector} {packet : AudioPacketInfo}

theorem audioPacket_invariant (hreads : r.Reads lsn sector parsed) (hlisted : parsed.packets[k]? = some packet)
    (haudio : packet.dataType = dataTypeAudio) (h : Invariant r fs s (place lsn k)) :
    Leaves (fun _ _ => True) (fun idx' t => idx' = parsed.infoAt (k + 1) ∧ Invariant r fs t (place lsn (k + 1)))
      (r.audioPacket lsn sector parsed packet (parsed.payloadAt k) (parsed.infoAt k)) s := by
  refine (r.audioPacket_spec lsn sector parsed packet _ _ s).mono (fun _ _ _ => trivial) ?_
  rintro idx' t ⟨-, hidx, htook⟩
  have hinfo := ParsedSector.infoAt_succ hlisted
  rw [if_pos haudio] at hinfo
  refine ⟨hidx.trans hinfo.symm, ?_⟩
  cases htook with
  | ignored hstart hnone => exact .idle h.emitted (h.placed.mono (place_succ _ _)) hnone
  | closed hstart hclosed =>
    exact .idle (hclosed.kept.framesEmitted.trans h.emitted) ((h.closed hclosed).mono (place_succ _ _)) hclosed.pending
  | @extended t p bytes hstart hsome hread happended =>
    refine .appended h.emitted (h.placed.mono (place_succ _ _)) (fun hpast hroom => ?_) happended
    obtain ⟨b, hbefore, hgathered⟩ := h.pending p hsome hpast hroom
    exact ⟨b, hbefore, .more hgathered ⟨hlisted, haudio, sector, hreads, hread⟩ hstart⟩
  | @opened t u v info bytes hstart hclosed hinformed hkept hready hread happended =>
    have hplaced : Placed r (r.windowed (fs ++ u.ready)) (place lsn k) := by
      rw [hready]
      exact h.closed hclosed
    refine .appended ?_ (hplaced.mono (place_succ _ _)) (fun _ hroom => ?_) happended
    · exact (hkept.framesEmitted.trans hclosed.kept.framesEmitted).trans h.emitted
    · rw [windowed_eq hroom] at hplaced
      exact ⟨_, hplaced, .start ⟨hlisted, haudio, sector, hreads, hread⟩ hstart hinformed⟩

/-- A packet that is too long may be passed over once no frame is wanted any more. -/
theorem canSkipMalformedPacket_spec (infos : List AudioFrameInfo) (s : Reading) :
    Leaves (fun _ _ => True)
      (fun skip t => Quiet s t ∧ (skip = true → t.pastTimeFilterEnd = true ∨ ¬ r.InWindow (s.stats.framesEmitted + s.ready.length)))
      (r.canSkipMalformedPacketAfterTimeWindow infos) s := by
  unfold canSkipMalformedPacketAfterTimeWindow
  have hno : Quiet s s ∧ (false = true → s.pastTimeFilterEnd = true ∨ ¬ r.InWindow (s.stats.framesEmitted + s.ready.length)) :=
    ⟨refl_of Quiet s, fun h => absurd h Bool.false_ne_true⟩
  refine Leaves.get_bind (Leaves.ite (fun hskip => Leaves.pure ⟨refl_of Quiet s, fun _ => ?_⟩) fun _ => ?_)
  · unfold canSkipAfterSelectedTimeWindow at hskip
    split at hskip
    · cases hskip
    · rename_i filter hfilter
      refine (of_decide_eq_true hskip).imp id fun ⟨_, hle⟩ hroom => ?_
      exact absurd (hroom filter hfilter) (by omega)
  · split
    · refine Leaves.ite (fun _ => Leaves.modify_bind (Leaves.pure ⟨?_, fun _ => Or.inl rfl⟩)) fun _ => Leaves.pure hno
      exact ⟨⟨rfl, rfl, rfl, rfl, rfl, rfl, rfl, rfl, id, fun _ => rfl⟩, rfl, rfl⟩
    · exact Leaves.pure hno

/-- Once nothing is wanted any more, the rest of the sector does not matter. -/
theorem Invariant.passedOver (h : Invariant r fs s x) (hquiet : Quiet s t)
    (hover : t.pastTimeFilterEnd = true ∨ ¬ r.InWindow (s.stats.framesEmitted + s.ready.length)) (hxy : x ≤ y) : Invariant r fs t y := by
  refine ⟨hquiet.framesEmitted.trans h.emitted, ?_, fun p _ hpast hroom => ?_⟩
  · rw [hquiet.ready]
    exact h.placed.mono hxy
  · rw [hquiet.ready, List.length_append, ← h.emitted] at hroom
    rcases hover with hover | hover
    · exact absurd (hover.symm.trans hpast) (by decide)
    · exact absurd hroom hover

theorem processPackets_invariant (hreads : r.Reads lsn sector parsed) (packets : List AudioPacketInfo) (hpackets : parsed.packets.drop k = packets)
    (hk : k ≤ parsed.packets.length) (h : Invariant r fs s (place lsn k)) :
    Leaves (fun _ _ => True) (fun _ t => Invariant r fs t (place lsn parsed.packets.length))
      (r.processPackets lsn sector parsed packets (parsed.payloadAt k) (parsed.infoAt k)) s := by
  induction packets generalizing k s with
  | nil =>
    have hend : k = parsed.packets.length := le_antisymm hk (List.drop_eq_nil_iff.1 hpackets)
    rw [← hend]
    exact Leaves.pure h
  | cons packet packets ih =>
    have hlisted : parsed.packets[k]? = some packet := by
      rw [← List.head?_drop, hpackets]
      rfl
    have hrest : parsed.packets.drop (k + 1) = packets := by
      rw [← List.tail_drop, hpackets]
      rfl
    have hlt : k < parsed.packets.length := (List.getElem?_eq_some_iff.1 hlisted).1
    have hend : place lsn k ≤ place lsn parsed.packets.length := place_le.2 (Or.inr ⟨rfl, hk⟩)
    unfold processPackets
    refine Leaves.ite (fun _ => ?_) fun _ => Leaves.ofExcept_bind (fun packetEnd hpacketEnd => ?_) fun _ _ => trivial
    · refine (canSkipMalformedPacket_spec parsed.frameInfos s).bind ?_
      rintro skip t ⟨hquiet, hover⟩
      refine Leaves.ite (fun hskip => ?_) fun _ => Leaves.throw trivial
      refine (countFiltered_quiet t).mono (fun _ _ _ => trivial) fun _ u hcounted => ?_
      exact h.passedOver (trans_of Quiet hquiet hcounted) ((hover hskip).imp hcounted.past id) hend
    · have hoffset : packetEnd = parsed.payloadAt (k + 1) := by
        rw [ParsedSector.payloadAt_succ hlisted]
        unfold checkedAdd at hpacketEnd
        split_ifs at hpacketEnd
        exact (Except.ok.inj hpacketEnd).symm
      rw [hoffset]
      refine Leaves.ite (fun haudio => (audioPacket_invariant hreads hlisted haudio h).bind ?_) fun hother => ?_
      · rintro idx t ⟨rfl, ht⟩
        exact ih hrest hlt ht
      · have hinfo := ParsedSector.infoAt_succ hlisted
        rw [if_neg hother] at hinfo
        rw [← hinfo]
        refine ih hrest hlt ⟨h.emitted, h.placed.mono (place_succ _ _), fun p hp hpast hroom => ?_⟩
        obtain ⟨b, hbefore, hgathered⟩ := h.pending p hp hpast hroom
        exact ⟨b, hbefore, .other hgathered hreads hlisted hother⟩

/-! ## Any number of calls -/

variable (r) in
theorem nextSector_invariant (h : Invariant r fs s (place s.curLsn 0)) (hready : s.ready = []) :
    Leaves (fun _ _ => True) (fun _ t => Invariant r fs t (place t.curLsn 0)) r.nextSector s := by
  have hplaced : Placed r (r.windowed (fs ++ [])) (place (s.curLsn + 1) 0) := by
    rw [← hready]
    exact h.placed.mono (place_nextSector _ _)
  have hskipped : ∀ {malformed io : ℕ} {t u : Reading}, t.stats.framesEmitted = fs.length → t.curLsn = s.curLsn + 1 →
      Skipped s.curLsn malformed io t u → Invariant r fs u (place u.curLsn 0) := by
    intro malformed io t u hemitted hplace hskipped
    refine .idle (hskipped.framesEmitted.trans hemitted) ?_ hskipped.pending
    rw [hskipped.ready, hskipped.curLsn, hplace]
    exact hplaced
  unfold nextSector
  refine Leaves.get_bind (Leaves.modify_bind ?_)
  split
  · rename_i sector hsector
    refine Leaves.modify_bind (Leaves.tryCatch (E := fun _ t => Kept (tookSector 1 s) t) ?_ ?_)
    · have htook : Invariant r fs (tookSector 1 s) (place s.curLsn 0) := ⟨h.emitted, h.placed, h.pending⟩
      have hkept := r.processSectorBytes_kept s.curLsn sector (tookSector 1 s)
      have hinvariant : Leaves (fun _ _ => True) (fun _ t => Invariant r fs t (place (s.curLsn + 1) 0))
          (r.processSectorBytes s.curLsn sector) (tookSector 1 s) := by
        unfold processSectorBytes
        refine Leaves.ofExcept_bind (fun parsed hparsed => ?_) fun _ _ => trivial
        have hreads : r.Reads s.curLsn sector parsed := ⟨hsector, hparsed⟩
        refine (processPackets_invariant (k := 0) hreads parsed.packets rfl (Nat.zero_le _) htook).mono (fun _ _ _ => trivial) fun _ t ht => ?_
        refine ⟨ht.emitted, ht.placed.mono (place_nextSector _ _), fun p hp hpast hroom => ?_⟩
        obtain ⟨b, hbefore, hgathered⟩ := ht.pending p hp hpast hroom
        exact ⟨b, hbefore, .nextSector hgathered hreads⟩
      refine (hkept.and hinvariant).mono (fun _ _ h => h) fun _ t ⟨hkept, ht⟩ => ?_
      have hplace : t.curLsn = s.curLsn + 1 := hkept.curLsn
      rw [hplace]
      exact ht
    · intro e t hkept
      exact (r.recoverFrom_spec s.curLsn e t).mono (fun _ _ _ => trivial) fun _ u =>
        hskipped (hkept.framesEmitted.trans h.emitted) hkept.curLsn
  · refine Leaves.ite (fun _ => Leaves.modify_bind ?_) fun _ => Leaves.throw trivial
    exact (r.skipSector_spec s.curLsn _ _ _).mono (fun _ _ h => h.elim) fun _ u => hskipped h.emitted rfl

/-- What holds of a call's result and of the state it leaves. -/
abbrev ReturnsPlaced (r : FrameReader) (fs : List Frame) (p : ReaderM (Option Frame)) (s : Reading) : Prop :=
  Leaves (fun _ _ => True) (fun result t => Invariant r (fs ++ result.toList) t (place t.curLsn 0)) p s

/-- A frame that is given out moves from one list to the other. -/
theorem emit_invariant {frame : Frame} (hemitted : s.stats.framesEmitted = fs.length)
    (hplaced : Placed r (r.windowed (fs ++ frame :: s.ready)) (place s.curLsn 0))
    (hpending : ∀ p, s.pending = some p → s.pastTimeFilterEnd = false → r.InWindow (fs ++ frame :: s.ready).length →
      ∃ b, Placed r (fs ++ frame :: s.ready) b ∧ Gathered r b p (place s.curLsn 0)) : ReturnsPlaced r fs (emit frame) s := by
  have happend : fs ++ (some frame).toList ++ s.ready = fs ++ frame :: s.ready := by
    rw [Option.toList_some, List.append_assoc, List.singleton_append]
  refine Leaves.modify_bind (Leaves.pure ⟨?_, ?_, ?_⟩)
  · rw [Option.toList_some, List.length_append, List.length_singleton, ← hemitted]
  · rw [happend]
    exact hplaced
  · rw [happend]
    exact hpending

theorem Invariant.none (h : Invariant r fs s (place s.curLsn 0)) : ReturnsPlaced r fs (pure Option.none) s := by
  refine Leaves.pure ?_
  rw [Option.toList_none, List.append_nil]
  exact h

theorem Invariant.readyOr {rest : ReaderM (Option Frame)} (h : Invariant r fs s (place s.curLsn 0))
    (hrest : s.ready = [] → ReturnsPlaced r fs rest s) : ReturnsPlaced r fs (readyOr rest) s := by
  unfold FrameReader.readyOr
  refine Leaves.get_bind ?_
  split
  · rename_i frame ready hready
    refine Leaves.modify_bind (emit_invariant h.emitted ?_ ?_)
    · rw [← hready]
      exact h.placed
    · rw [← hready]
      exact h.pending
  · rename_i hready
    exact hrest hready

variable (r) in
theorem flush_invariant (h : Invariant r fs s (place s.curLsn 0)) (hready : s.ready = []) : ReturnsPlaced r fs r.flush s := by
  unfold flush
  refine Leaves.get_bind ?_
  split
  · exact h.none
  · rename_i p hp
    have htaken : Invariant r fs { s with pending := Option.none } (place s.curLsn 0) := .idle h.emitted h.placed rfl
    refine Leaves.modify_bind (Leaves.ite (fun _ => htaken.none) fun hcomplete => Leaves.ite (fun hselected => ?_) fun _ => ?_)
    · rw [Bool.not_eq_true, Bool.not_eq_false'] at hcomplete
      refine emit_invariant h.emitted ?_ fun q hq => absurd hq (by simp)
      have hplaced := h.placed
      have hpending := h.pending p hp
      rw [hready, List.append_nil] at hplaced hpending
      dsimp only
      rw [hready]
      exact hplaced.deliver ⟨hcomplete, hselected⟩ hpending
    · exact Leaves.modify_bind (Invariant.none (.idle h.emitted h.placed rfl))

variable (r) in
theorem nextFrame_invariant (h : Invariant r fs s (place s.curLsn 0)) : ReturnsPlaced r fs r.nextFrame s := by
  have hloop : ∀ sectors {s : Reading}, Invariant r fs s (place s.curLsn 0) → ReturnsPlaced r fs (r.nextFrameFrom sectors) s := by
    intro sectors
    induction sectors with
    | zero => exact fun h => h.readyOr (r.flush_invariant h)
    | succ sectors ih => exact fun h => h.readyOr fun hready => (r.nextSector_invariant h hready).bind fun _ _ ht => ih ht
  exact hloop (r.endLsn - s.curLsn) h

end FrameReader
end Sacd
